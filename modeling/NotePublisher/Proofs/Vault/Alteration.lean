import NotePublisher.Proofs.Vault.Run
import NotePublisher.Proofs.Vault.Trimming

namespace NotePublisher

/-!
# What a document's turn does to any tree

`Vault.Alteration` lists what storing a document can make of what is at a
place, where links may be anywhere. Only the document's own place is rewritten
or emptied, and folders around it whose path publishing changes; what is new
is below the root or past a link on the way to the output. `Vault.Turn` says
what one document of a run does, and `Vault.Turns` strings turns together
(`Vault.publishEach_turns`).
-/

namespace Vault

open Disk

/-- What a document that is stored can make of what is at a place. -/
inductive Alteration
    (root : Text)
    (home : Location)
    (document : DocumentPath)
    (old new : Disk)
    (place : Location) : Prop where
  | kept :
      new.look place = old.look place →
      Alteration root home document old new place
  | added {kind : Kind} :
      old.look place = none →
      new.look place = some kind →
      kind = .folder ∨ kind.IsText →
      Location.IsBelow home place ∨ old.Detours home document.output.location →
      Alteration root home document old new place
  | rewritten {content : Leaf} {kind : Kind} :
      document.output.location = document.location →
      place = home ++ document.location →
      (∃ text, old.readText (Route.ofText (document.within root)) = .ok text) →
      old.look place = some (.leaf content) →
      new.look place = some kind →
      kind.IsText →
      Alteration root home document old new place
  | removed {content : Leaf} :
      document.output.location ≠ document.location →
      place = home ++ document.location →
      old.look place = some (.leaf content) →
      new.look place = none →
      Alteration root home document old new place
  | emptied {folder : Location} :
      document.output.location ≠ document.location →
      folder <+: document.location →
      ¬ Location.IsPublished folder →
      place = home ++ folder →
      old.look place = some .folder →
      new.look place = none →
      Alteration root home document old new place

/-- A tree was changed in no other ways than those in which storing a document changes it. -/
structure Alters
    (root : Text)
    (home : Location)
    (document : DocumentPath)
    (old new : Disk) : Prop where
  workingFolder : new.workingFolder = old.workingFolder
  staged : new.staged = old.staged
  places : ∀ place, Alteration root home document old new place

namespace Alters

variable {root : Text} {home : Location} {document : DocumentPath} {old new : Disk}

theorem refl
    (root : Text)
    (home : Location)
    (document : DocumentPath)
    (disk : Disk) :
    Alters root home document disk disk where
  workingFolder := rfl
  staged := rfl
  places _ := .kept rfl

/-- Storing a document makes no links. -/
theorem links
    (alters : Alters root home document old new)
    (place : Location)
    (target : Text)
    (linked : new.look place = some (.leaf (.link target))) :
    old.look place = some (.leaf (.link target)) := by
  have notText {kind : Kind} (found : new.look place = some kind) (isText : kind.IsText) :
      False := by
    cases found.symm.trans linked
    exact isText.not_isLink ⟨target, rfl⟩
  cases alters.places place with
  | kept same => exact same ▸ linked
  | added _ found isNew _ =>
      rcases isNew with rfl | isText
      · cases found.symm.trans linked
      · exact (notText found isText).elim
  | rewritten _ _ _ _ found isText => exact (notText found isText).elim
  | removed _ _ _ gone => cases gone.symm.trans linked
  | emptied _ _ _ _ _ gone => cases gone.symm.trans linked

/-- Folders are made only where nothing was. -/
theorem folders
    (alters : Alters root home document old new)
    (place : Location)
    (holdsFolder : new.look place = some .folder) :
    old.look place = some .folder ∨ old.look place = none := by
  cases alters.places place with
  | kept same => exact .inl (same ▸ holdsFolder)
  | added missing _ _ _ => exact .inr missing
  | rewritten _ _ _ _ found isText =>
      cases found.symm.trans holdsFolder
      obtain ⟨file, text, isFile, -⟩ := isText
      cases isFile
  | removed _ _ _ gone => cases gone.symm.trans holdsFolder
  | emptied _ _ _ _ _ gone => cases gone.symm.trans holdsFolder

/-- Files and links stay, but for the document's own. -/
theorem look_leaf
    (alters : Alters root home document old new)
    {place : Location}
    {content : Leaf}
    (found : old.look place = some (.leaf content))
    (elsewhere : place ≠ home ++ document.location) :
    new.look place = some (.leaf content) := by
  cases alters.places place with
  | kept same => exact same.trans found
  | added missing _ _ _ => cases missing.symm.trans found
  | rewritten _ atPlace _ _ _ _ => exact absurd atPlace elsewhere
  | removed _ atPlace _ _ => exact absurd atPlace elsewhere
  | emptied _ _ _ _ holdsFolder _ => cases holdsFolder.symm.trans found

/-- What can be read through places at which nothing vanishes can still be read. -/
theorem keeps
    (alters : Alters root home document old new)
    {allowed : Location → Prop}
    (held : ∀ place, allowed place → old.look place ≠ none → new.look place ≠ none)
    (leads : LeadsHome old root home)
    (normal : document.IsNormal)
    (fits : Location.Fits document.location) :
    Keeps allowed old new where
  workingFolder := alters.workingFolder
  links := alters.links
  folders place isAllowed holdsFolder := by
    have heldHere := held place isAllowed (by simp [holdsFolder])
    cases alters.places place with
    | kept same => exact same.trans holdsFolder
    | added missing _ _ _ => cases missing.symm.trans holdsFolder
    | rewritten _ _ _ found _ _ => cases found.symm.trans holdsFolder
    | removed _ _ found _ => cases found.symm.trans holdsFolder
    | emptied _ _ _ _ _ gone => exact absurd gone heldHere
  texts place kind isAllowed found isText := by
    have heldHere := held place isAllowed (by simp [found])
    cases alters.places place with
    | kept same => exact ⟨kind, same.trans found, isText⟩
    | added missing _ _ _ => cases missing.symm.trans found
    | rewritten _ _ _ _ foundThen isTextThen => exact ⟨_, foundThen, isTextThen⟩
    | removed _ _ _ gone => exact absurd gone heldHere
    | emptied _ _ _ _ _ gone => exact absurd gone heldHere
  targets here name target isAllowed linked := by
    have heldHere := held (here ++ [name]) isAllowed (by simp [linked])
    cases alters.places (here ++ [name]) with
    | kept same => exact .inl (same.trans linked)
    | added missing _ _ _ => cases missing.symm.trans linked
    | rewritten _ atPlace reads _ found isText =>
        refine .inr ⟨⟨_, found, isText⟩, ?_⟩
        obtain ⟨above, last, shape⟩ := location_eq_concat normal
        rw [normal.isNamed.route_within, shape] at reads
        rw [shape, ← List.append_assoc] at atPlace
        obtain ⟨rfl, sameName⟩ := List.append_inj' atPlace rfl
        cases sameName
        intro links there treads
        have fitsAbove : Location.Fits above := fun other member =>
          fits other (shape ▸ List.mem_append_left _ member)
        exact look_ne_folder_of_readText leads fitsAbove linked reads treads
    | removed _ _ _ gone => exact absurd gone heldHere
    | emptied _ _ _ _ holdsFolder _ => cases holdsFolder.symm.trans linked

/-- Where nothing vanishes the root leads home still, even if the document was a link. -/
theorem leadsHome
    (alters : Alters root home document old new)
    (held : ∀ place, old.look place ≠ none → new.look place ≠ none)
    (leads : LeadsHome old root home)
    (normal : document.IsNormal)
    (fits : Location.Fits document.location) :
    LeadsHome new root home := by
  have keeps : Keeps anywhere old new :=
    alters.keeps (fun place _ => held place) leads normal fits
  obtain ⟨treads, arrives⟩ := keeps.treads_folder leads.treads leads.arrives
  have starts : new.start (Route.ofText root) = old.start (Route.ofText root) := by
    simp [start, alters.workingFolder]
  rw [LeadsHome, starts]
  exact treads.leads arrives

end Alters

section Parts

variable {root : Text} {home : Location} {document : DocumentPath} {disk made placed : Disk}

/-- Making the folders of an output alters nothing else. -/
theorem alters_of_widened
    (widened : Widened home document.output.location disk made) :
    Alters root home document disk made where
  workingFolder := widened.workingFolder
  staged := widened.staged
  places place := by
    rcases widened.places place with same | ⟨missing, isFolder, allowed⟩
    · exact .kept same
    · exact .added missing isFolder (.inl rfl) allowed

/-- What is stored is a text. -/
theorem isText_of_storedFile
    {root content : Text}
    {source : DocumentPath}
    {file : RegularFile}
    (isStored : file = storedFile root source content made) :
    Kind.IsText (.leaf (.file file)) :=
  ⟨file, content, rfl, by rw [isStored, storedFile, Utf8.decode?_encode]⟩

/-- Where a file was placed, everything else is as it was, but for folders made for it. -/
theorem Placed.look_of_look
    {file : RegularFile}
    {place : Location}
    (isPlaced : Placed root home document.output file disk made placed place)
    (widened : Widened home document.output.location disk made)
    (other : Location)
    (kind : Kind)
    (found : disk.look other = some kind) :
    placed.look other = some kind := by
  refine (isPlaced.replaced.look_of_ne ?_).trans (widened.look_of_look found)
  rintro rfl
  cases isPlaced.missing.symm.trans found

/-- An output that is put in a new place alters what storing may. -/
theorem alters_of_placed
    {file : RegularFile}
    {place : Location}
    (isPlaced : Placed root home document.output file disk made placed place)
    (widened : Widened home document.output.location disk made)
    (isText : Kind.IsText (.leaf (.file file))) :
    Alters root home document disk placed where
  workingFolder := isPlaced.workingFolder
  staged := isPlaced.staged
  places other := by
    by_cases atPlace : other = place
    · subst atPlace
      exact .added isPlaced.missing isPlaced.replaced.look_place (.inr isText) isPlaced.allowed
    · have same : placed.look other = made.look other := isPlaced.replaced.look_of_ne atPlace
      rcases widened.places other with unchanged | ⟨missing, isFolder, allowed⟩
      · exact .kept (same.trans unchanged)
      · exact .added missing (same.trans isFolder) (.inl rfl) allowed

/-- An output that replaces its source alters what storing may. -/
theorem alters_of_replaced
    {file : RegularFile}
    {content : Leaf}
    (sameLocation : document.output.location = document.location)
    (reads : ∃ text, disk.readText (Route.ofText (document.within root)) = .ok text)
    (present : disk.look (home ++ document.location) = some (.leaf content))
    (widened : Widened home document.output.location disk made)
    (replaced : Folder.Replaced (home ++ document.location) (some (.leaf (.file file))) made.top
      placed.top)
    (workingFolder : placed.workingFolder = disk.workingFolder)
    (staged : placed.staged = disk.staged)
    (isText : Kind.IsText (.leaf (.file file))) :
    Alters root home document disk placed where
  workingFolder := workingFolder
  staged := staged
  places other := by
    by_cases atPlace : other = home ++ document.location
    · exact .rewritten sameLocation atPlace reads (atPlace ▸ present)
        (atPlace ▸ replaced.look_place) isText
    · have same : placed.look other = made.look other := replaced.look_of_ne atPlace
      rcases widened.places other with unchanged | ⟨missing, isFolder, allowed⟩
      · exact .kept (same.trans unchanged)
      · exact .added missing (same.trans isFolder) (.inl rfl) allowed

/-- A source was removed, and empty folders around it. -/
theorem alters_of_cleared
    {content : Leaf}
    {without last : Disk}
    (normal : document.IsNormal)
    (renamed : document.output.location ≠ document.location)
    (present : placed.look (home ++ document.location) = some (.leaf content))
    (removed : Folder.Replaced (home ++ document.location) none placed.top without.top)
    (workingFolder : without.workingFolder = placed.workingFolder)
    (staged : without.staged = placed.staged)
    (cleared : Cleared home document.enclosingFolders without last) :
    Alters root home document placed last where
  workingFolder := cleared.workingFolder.trans workingFolder
  staged := cleared.staged.trans staged
  places other := by
    have gone : without.look (home ++ document.location) = none := removed.look_place
    rcases cleared.places other with
      same | ⟨isFolder, missing, folder, member, unpublished, atFolder⟩
    · by_cases atPlace : other = home ++ document.location
      · exact .removed renamed atPlace (atPlace ▸ present) (same.trans (atPlace ▸ gone))
      · exact .kept (same.trans (removed.look_of_ne atPlace))
    · have elsewhere : other ≠ home ++ document.location := by
        rintro rfl
        cases gone.symm.trans isFolder
      have wasFolder : placed.look other = some .folder :=
        (removed.look_of_ne elsewhere).symm.trans isFolder
      exact .emptied renamed (DocumentPath.enclosingFolders_onTheWay normal member).2.1 unpublished
        atFolder wasFolder missing

end Parts

/--
A text stands under the name of a document's output, in the folder that the path
of the output leads to, where nothing or the document itself was.
-/
structure OutputAt
    (root : Text)
    (home : Location)
    (document : DocumentPath)
    (old new : Disk)
    (place : Location) : Prop where
  text : ∃ kind, new.look place = some kind ∧ kind.IsText
  fresh : document.output.location ≠ document.location ∧ old.look place = none ∨
    document.output.location = document.location ∧ place = home ++ document.location
  onTheWay : ∃ above name around, document.output.location = above ++ [name] ∧
    place = around ++ [name] ∧ name.size ≤ maximalNameSize ∧
    new.Leads maximalLinks (new.start (Route.ofText root))
      ((Route.ofText root).steps ++ above.map .enter) around

/-- An output that stands under its name can be read. -/
theorem OutputAt.exists_readText
    {root : Text}
    {home place : Location}
    {document : DocumentPath}
    {old new : Disk}
    (outputAt : OutputAt root home document old new place)
    (legible : (Route.ofText root).holdsZero = false)
    (normal : document.IsNormal) :
    ∃ text, new.readText (Route.ofText (document.output.within root)) = .ok text := by
  obtain ⟨above, name, around, shape, rfl, fits, leads⟩ := outputAt.onTheWay
  obtain ⟨kind, found, isText⟩ := outputAt.text
  rw [normal.output.isNamed.route_within, shape]
  exact exists_readText_of_leads (Route.holdsZero_below legible (shape ▸ normal.output.plain)) leads
    fits found isText

/-- What becomes of a tree when a document is stored. -/
inductive Persisted
    (root : Text)
    (home : Location)
    (document : DocumentPath)
    (disk : Disk) :
    EStateM.Result VaultError Session Unit → Prop where
  | refused {error : VaultError} {last : Session} :
      Alters root home document disk last.disk →
      (∀ place kind, disk.look place = some kind → last.disk.look place = some kind) →
      Persisted root home document disk (.error error last)
  | stored {middle : Disk} {last : Session} :
      Alters root home document disk middle →
      (∃ place, OutputAt root home document disk middle place) →
      Alters root home document middle last.disk →
      Persisted root home document disk (.ok () last)

section Persist

variable {root : Text} {home : Location} {document : DocumentPath} {session : Session}
  {content : Leaf}
  (legible : (Route.ofText root).holdsZero = false)
  (normal : document.IsNormal) (fits : Location.Fits document.location)

include legible normal fits

/-- After the output was placed, the source is removed and the folders this leaves empty. -/
private theorem alters_of_moved
    {disk made placed without : Disk}
    {file : RegularFile}
    {place : Location}
    {last : Session}
    {events : List Event}
    (renamed : document.output.location ≠ document.location)
    (isPlaced : Placed root home document.output file disk made placed place)
    (present : placed.look (home ++ document.location) = some (.leaf content))
    (removed : removeFile (Route.ofText (document.within root)) placed = .ok () without)
    (cleared : removeEmptyFolders root document.enclosingFolders ⟨without, events⟩ = .ok () last) :
    Alters root home document placed last.disk := by
  obtain ⟨above, name, shape⟩ := location_eq_concat normal
  have fitsAbove : Location.Fits above := fun part member =>
    fits part (shape ▸ List.mem_append_left _ member)
  have around (folder : Location) (below : Location) (below_ne_nil : below ≠ [])
      (onTheWay : document.location = folder ++ below) :
      placed.look (home ++ folder) = some .folder := by
    rw [onTheWay, ← List.append_assoc] at present
    exact Folder.look_eq_folder_of_look_append below_ne_nil present
  rw [normal.isNamed.route_within, shape] at removed
  rcases removeFile_cases ((Route.ofText root).below (above ++ [name])) placed with
    ⟨other, refused⟩ | ⟨outer, other, changed, _, done, exchanges, -, staged⟩
  · cases removed.symm.trans refused
  cases removed.symm.trans done
  have straight := locate_below_of_look isPlaced.leads
    (Route.holdsZero_below legible (shape ▸ normal.plain)) fitsAbove
    (around above [name] (by simp) shape)
  cases exchanges.located.symm.trans straight
  have replaced := exchanges.replaced
  rw [List.append_assoc, ← shape] at replaced
  have homeward : Homeward placed root home := fun there leads =>
    leads.treads.unique isPlaced.leads.treads
  refine alters_of_cleared normal renamed present replaced exchanges.workingFolder staged ?_
  obtain ⟨kept, first, newFirst, below, newBelow, sourceShape, outputShape, -, changes,
    different⟩ := DocumentPath.exists_renamed renamed
  have unpublished : ¬ Location.IsPublished (kept ++ [first]) := fun published =>
    changes fun text member => published text (List.mem_append_right kept member)
  have onTheWay {folder : DocumentPath} (member : folder ∈ document.enclosingFolders) :=
    DocumentPath.enclosingFolders_onTheWay normal member
  have notOnTheWay {folder : Location} (isPrefix : folder <+: document.location) :
      kept ++ [newFirst] ≠ folder := by
    rintro rfl
    obtain ⟨rest, whole⟩ := isPrefix
    rw [sourceShape, List.append_assoc] at whole
    exact different (List.cons.inj (List.append_cancel_left whole)).1
  have standing : without.look (home ++ (kept ++ [newFirst])) ≠ none := by
    have unchanged : without.look (home ++ (kept ++ [newFirst])) =
        placed.look (home ++ (kept ++ [newFirst])) :=
      replaced.look_of_ne fun same =>
        notOnTheWay (List.prefix_refl _) (List.append_cancel_left same)
    rw [unchanged, ← List.append_assoc]
    refine isPlaced.look_ne_none outputShape ?_ (around kept (first :: below) (by simp) sourceShape)
    exact fun part member => fits part (sourceShape ▸ List.mem_append_left _ member)
  refine removeEmptyFolders_clears legible
    (fun folder member => (onTheWay member).1)
    (fun folder member part inside => fits part ((onTheWay member).2.1.subset inside))
    (DocumentPath.nodup_enclosingFolders normal)
    (fun folder member same => notOnTheWay (onTheWay member).2.1 (List.append_cancel_left same))
    (fun folder member published => ?_)
    (homeward.of_replaced replaced exchanges.workingFolder)
    (fun folder member => ?_) standing cleared
  · -- What keeps its path is above the first name that publishing changes.
    have toFirst : kept ++ [first] <+: document.location :=
      ⟨below, by rw [sourceShape, List.append_assoc, List.singleton_append]⟩
    rcases List.prefix_or_prefix_of_prefix (onTheWay member).2.1 toFirst with shorter | longer
    · rcases List.prefix_concat_iff.mp shorter with same | ⟨rest, rfl⟩
      · exact absurd (same ▸ published) unpublished
      · exact ⟨rest ++ [newFirst], by simp, by simp [List.append_assoc]⟩
    · exact absurd (published.of_prefix longer) unpublished
  · obtain ⟨-, ⟨rest, whole⟩, elsewhere⟩ := onTheWay member
    have unchanged : without.look (home ++ folder.location) =
        placed.look (home ++ folder.location) :=
      replaced.look_of_ne fun same => elsewhere (List.append_cancel_left same)
    refine unchanged.trans (around folder.location rest ?_ whole.symm)
    rintro rfl
    exact elsewhere ((List.append_nil _).symm.trans whole)

/-- A document that keeps its path is stored there. -/
private theorem alters_of_inPlace
    {disk made placed : Disk}
    {staged : StagedFile}
    {text : Text}
    (leads : LeadsHome disk root home)
    (present : disk.look (home ++ document.location) = some (.leaf content))
    (reads : ∃ text, disk.readText (Route.ofText (document.within root)) = .ok text)
    (widened : Widened home document.output.location disk made)
    (sameLocation : document.output.location = document.location)
    (isStored : staged.file = storedFile root document text made)
    (committed : commitStaged (Route.ofText (document.output.within root)) .allowed
      { made with staged := staged :: made.staged } = .ok () placed) :
    Alters root home document disk placed ∧
      OutputAt root home document disk placed (home ++ document.location) := by
  obtain ⟨replaced, workingFolder, unstaged⟩ := exists_replaced legible
    normal.output (sameLocation.symm ▸ fits) leads (sameLocation.symm ▸ present) widened committed
  rw [sameLocation] at replaced
  have isText := isText_of_storedFile isStored
  have alters := alters_of_replaced sameLocation reads present widened replaced workingFolder
    unstaged isText
  have held (place : Location) (there : disk.look place ≠ none) : placed.look place ≠ none := by
    by_cases atPlace : place = home ++ document.location
    · subst atPlace
      exact Option.ne_none_iff_exists'.mpr ⟨_, replaced.look_place⟩
    · obtain ⟨kind, found⟩ := Option.ne_none_iff_exists'.mp there
      exact Option.ne_none_iff_exists'.mpr
        ⟨kind, (replaced.look_of_ne atPlace).trans (widened.look_of_look found)⟩
  have holdsText : placed.look (home ++ document.location) = some (.leaf (.file staged.file)) :=
    replaced.look_place
  obtain ⟨above, name, shape⟩ := location_eq_concat normal
  have holdsAbove : placed.look (home ++ above) = some .folder := by
    rw [shape, ← List.append_assoc] at holdsText
    exact Folder.look_eq_folder_of_look_append (List.cons_ne_nil name []) holdsText
  have fitsAbove : Location.Fits above := fun part member =>
    fits part (shape ▸ List.mem_append_left _ member)
  refine ⟨alters, ⟨_, holdsText, isText⟩, .inr ⟨sameLocation, rfl⟩, above, name, home ++ above,
    sameLocation.trans shape, by rw [shape, List.append_assoc], fits name (by simp [shape]), ?_⟩
  exact (alters.leadsHome held leads normal fits).trans (leads_straight fitsAbove holdsAbove)

/-- Storing a document that could be read alters what storing may, be it stored or not. -/
theorem persistDocument_alters
    (leads : LeadsHome session.disk root home)
    (present : session.disk.look (home ++ document.location) = some (.leaf content))
    (reads : ∃ text, session.disk.readText (Route.ofText (document.within root)) = .ok text)
    (text : Text) :
    Persisted root home document session.disk
      (persistDocument root document document.output text session) := by
  obtain ⟨made, widened, stored⟩ := @persistDocument_cases root document document.output text
    session home normal.output leads
  generalize persistDocument root document document.output text session = result at stored
  cases stored with
  | refused => exact .refused (alters_of_widened widened) fun _ _ => widened.look_of_look
  | inPlace same isStored committed =>
      obtain ⟨alters, outputAt⟩ := alters_of_inPlace legible normal fits leads present
        reads widened (DocumentPath.sameComponents_output_iff.mp same) isStored committed
      exact .stored alters ⟨_, outputAt⟩ (.refl ..)
  | @copied staged placed kept cause error different isStored committed unremoved =>
      obtain ⟨place, isPlaced⟩ :=
        exists_placed normal.output leads widened committed
      cases eq_of_removeFile_eq_error unremoved
      exact .refused (alters_of_placed isPlaced widened (isText_of_storedFile isStored))
        (isPlaced.look_of_look widened)
  | moved different isStored committed removed cleared =>
      have renamed : document.output.location ≠ document.location := by
        intro same
        simp [DocumentPath.sameComponents_output_iff.mpr same] at different
      obtain ⟨place, isPlaced⟩ :=
        exists_placed normal.output leads widened committed
      have isText := isText_of_storedFile isStored
      have onward := alters_of_moved legible normal fits renamed isPlaced
        (isPlaced.look_of_look widened _ _ present) removed cleared
      obtain ⟨above, name, around, -, shape, atPlace, fitsName, -, wholeWay⟩ := isPlaced.onward
      exact .stored (alters_of_placed isPlaced widened isText)
        ⟨place, ⟨_, isPlaced.replaced.look_place, isText⟩, .inl ⟨renamed, isPlaced.missing⟩,
          above, name, around, shape, atPlace, fitsName, wholeWay⟩ onward

end Persist

end Vault

end NotePublisher
