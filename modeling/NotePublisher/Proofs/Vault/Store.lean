import NotePublisher.Proofs.Disk.Operations
import NotePublisher.Proofs.Document.Location
import NotePublisher.Vault.Store

namespace NotePublisher

/-!
# Storing a document

A document whose published path names the same file takes the place of its
source (`Vault.persistDocument_inPlace`). Any other is moved to its published
path, or else refused because something stands in the way there
(`Vault.persistDocument_relocated`). What stands in the way is still there
after the refusal.
-/

namespace Folder

/-- A file has moved from one location to another. -/
structure Moved
    (source target : Location)
    (file : RegularFile)
    (old new : Folder) : Prop where
  free : old.IsFree target
  placed : new.look target = some (.leaf (.file file))
  removed : new.look source = none
  /-- Elsewhere only folders above the target appear and folders above the source vanish. -/
  others : ∀ place, place ≠ source → place ≠ target →
    new.look place = old.look place ∨
      (old.look place = none ∧ new.look place = some .folder ∧ place <+: target) ∨
      (old.look place = some .folder ∧ new.look place = none ∧ place <+: source)

/-- A document moves only to a place where nothing is. -/
theorem Moved.missing
    {source target : Location}
    {file : RegularFile}
    {old new : Folder}
    (moved : Moved source target file old new) :
    old.look target = none :=
  look_eq_none_of_isFree moved.free

theorem Moved.linkFree
    {source target : Location}
    {file : RegularFile}
    {old new : Folder}
    (moved : Moved source target file old new)
    (linkFree : old.LinkFree) :
    new.LinkFree := by
  intro place link linked
  by_cases atSource : place = source
  · simp [atSource, moved.removed] at linked
  · by_cases atTarget : place = target
    · simp [atTarget, moved.placed] at linked
    · rcases moved.others place atSource atTarget with same | ⟨-, made, -⟩ | ⟨-, gone, -⟩
      · exact linkFree place link (same ▸ linked)
      · simp [made] at linked
      · simp [gone] at linked

/-- Some of the given folders have been removed. -/
def Pruned
    (places : List Location)
    (old new : Folder) :
    Prop :=
  ∀ place, new.look place = old.look place ∨
    (old.look place = some .folder ∧ new.look place = none ∧ place ∈ places)

theorem Pruned.refl
    (places : List Location)
    (here : Folder) :
    Pruned places here here :=
  fun _ => .inl rfl

theorem Pruned.cons
    {place : Location}
    {places : List Location}
    {old middle new : Folder}
    (wasFolder : old.look place = some .folder)
    (removed : Replaced place none old middle)
    (pruned : Pruned places middle new) :
    Pruned (place :: places) old new := by
  intro other
  rcases pruned other with same | ⟨holdsFolder, gone, member⟩
  · by_cases atPlace : other = place
    · subst atPlace
      exact .inr ⟨wasFolder, same.trans removed.look_place, List.mem_cons_self⟩
    · exact .inl (same.trans (removed.look_of_ne atPlace))
  · have different : other ≠ place := by
      rintro rfl
      simp [removed.look_place] at holdsFolder
    rw [removed.look_of_ne different] at holdsFolder
    exact .inr ⟨holdsFolder, gone, List.mem_cons_of_mem _ member⟩

/-- A file moves by being placed, removed, and by its folders being removed. -/
private theorem moved_of_steps
    {source target : Location}
    {file : RegularFile}
    {old placed without new : Folder}
    {folders : List Location}
    (different : target ≠ source)
    (free : old.IsFree target)
    (places : Replaced target (some (.leaf (.file file))) old placed)
    (removes : Replaced source none placed without)
    (prunes : Pruned folders without new)
    (aroundSource : ∀ place ∈ folders, place <+: source) :
    Moved source target file old new where
  free := free
  placed := by
    have placedThere := (removes.look_of_ne different).trans places.look_place
    rcases prunes target with same | ⟨wasFolder, -, -⟩
    · exact same.trans placedThere
    · simp [placedThere] at wasFolder
  removed := by
    rcases prunes source with same | ⟨-, gone, -⟩
    · exact same.trans removes.look_place
    · exact gone
  others place notSource notTarget := by
    have untouched : without.look place = old.look place :=
      (removes.look_of_ne notSource).trans (places.look_of_ne notTarget)
    rw [← untouched]
    exact (prunes place).imp_right fun ⟨wasFolder, gone, member⟩ =>
      .inr ⟨wasFolder, gone, aroundSource place member⟩

/-- A file that moves after folders were made for it has moved. -/
theorem Grown.moved
    {source target : Location}
    {file : RegularFile}
    {old middle new : Folder}
    (grown : Grown target old middle)
    (moved : Moved source target file middle new) :
    Moved source target file old new where
  free := grown.isFree moved.free
  placed := moved.placed
  removed := moved.removed
  others place notSource notTarget := by
    rcases grown place with sameBefore | ⟨missing, made, onTheWay⟩
    · rw [← sameBefore]
      exact moved.others place notSource notTarget
    · -- A folder made on the way to the target stays, since the file is below it.
      obtain ⟨below, shape⟩ := onTheWay
      have below_ne_nil : below ≠ [] := by
        rintro rfl
        exact notTarget (by simpa using shape)
      have stays : new.look place = some .folder :=
        look_eq_folder_of_look_append below_ne_nil (shape ▸ moved.placed)
      exact .inr (.inl ⟨missing, stays, ⟨below, shape⟩⟩)

end Folder

namespace Vault

open Disk

variable {root : Text} {home : Location} {folder : Folder}

/-- A document has a name in a folder. -/
theorem location_eq_concat
    {path : DocumentPath}
    (normal : path.IsNormal) :
    ∃ above name, path.location = above ++ [name] :=
  ⟨_, _, (List.dropLast_append_getLast normal.location_ne_nil).symm⟩

/-- A disk that holds a vault and nothing else. -/
def diskOf (folder : Folder) : Disk where
  top := .folder (Utf8.encode "vault".toList) folder .empty
  workingFolder := []

/-- The path of the root leads to a vault without links. -/
structure Reachable
    (disk : Disk)
    (root : Text)
    (home : Location)
    (folder : Folder) : Prop where
  anchored : disk.Anchored (Route.ofText root) home folder
  wellFormed : disk.top.WellFormed
  root_ne_nil : root ≠ []

namespace Reachable

variable {disk new : Disk} {newFolder : Folder}

theorem folder_wellFormed
    (reachable : Reachable disk root home folder) :
    folder.WellFormed :=
  reachable.wellFormed.folderAt? reachable.anchored.inside

/-- A vault stays within reach where its root stays where it is. -/
theorem after
    (reachable : Reachable disk root home folder)
    (changedAt : ChangedAt home disk folder new newFolder)
    (anchored : new.Anchored (Route.ofText root) home newFolder) :
    Reachable new root home newFolder :=
  ⟨anchored, changedAt.wellFormed reachable.wellFormed, reachable.root_ne_nil⟩

/-- Replacing anything but a folder, by no link, leaves a vault within reach. -/
theorem replaced
    (reachable : Reachable disk root home folder)
    (changedAt : ChangedAt home disk folder new newFolder)
    {place : Location}
    {kind : Option Kind}
    (replaced : folder.Replaced place kind newFolder)
    (notFolder : folder.look place ≠ some .folder)
    (noLink : ∀ target, kind ≠ some (.leaf (.link target))) :
    Reachable new root home newFolder :=
  reachable.after changedAt (reachable.anchored.replaced changedAt replaced notFolder noLink)

theorem grown
    (reachable : Reachable disk root home folder)
    (changedAt : ChangedAt home disk folder new newFolder)
    {location : Location}
    (grown : folder.Grown location newFolder) :
    Reachable new root home newFolder :=
  reachable.after changedAt (reachable.anchored.grown changedAt grown)

end Reachable

/-- Where nothing is found below the root, no folder is removed. -/
theorem removeEmptyFolders_of_lost
    (session : Session)
    (lost : session.disk.Lost (Route.ofText root))
    {folders : List DocumentPath}
    (normal : ∀ path ∈ folders, path.IsNormal) :
    removeEmptyFolders root folders session = .ok () session := by
  cases folders with
  | nil => rfl
  | cons path above =>
      obtain ⟨cause, failed⟩ := lost.readFolder_below path.location
      rw [removeEmptyFolders, (normal path List.mem_cons_self).isNamed.route_within]
      simp only [failed]

section Removing

variable {disk : Disk} (reachable : Reachable disk root home folder) {path : DocumentPath}
  (normal : path.IsNormal)

include reachable normal

/-- A file or link of a vault can be removed. -/
private theorem removeFile_within
    {content : Leaf}
    (found : folder.look path.location = some (.leaf content)) :
    ∃ changed newFolder,
      removeFile (Route.ofText (path.within root)) disk = .ok () changed ∧
      ChangedAt home disk folder changed newFolder ∧
      folder.Replaced path.location none newFolder := by
  obtain ⟨above, name, shape⟩ := location_eq_concat normal
  rw [shape] at found
  obtain ⟨inside, reaches⟩ := reachable.folder_wellFormed.reaches found
  have removed := reachable.anchored.removeFile_below reaches found
  rw [← shape, ← normal.isNamed.route_within] at removed
  refine ⟨_, _, removed,
    .updateFolder reachable.anchored.inside (fun here ordered => ?_) above, ?_⟩
  · exact ordered.erase name
  · rw [shape]
    exact Folder.replaced_eraseLeaf reaches.leads found

/-- A folder of a vault can be listed, and removed if it is empty. -/
private theorem removeFolder_within
    (present : folder.look path.location = some .folder) :
    ∃ inside, disk.readFolder (Route.ofText (path.within root)) = .ok inside ∧
      (inside.isEmpty → ∃ changed newFolder,
        removeFolder (Route.ofText (path.within root)) disk = .ok () changed ∧
        ChangedAt home disk folder changed newFolder ∧
        folder.Replaced path.location none newFolder) := by
  obtain ⟨above, name, shape⟩ := location_eq_concat normal
  rw [shape] at present
  obtain ⟨inside, leads⟩ := Folder.exists_folderAt?_of_look present
  obtain ⟨around, reaches⟩ := reachable.folder_wellFormed.reaches present
  rw [normal.isNamed.route_within, shape]
  refine ⟨inside, reachable.anchored.readFolder_below reaches leads, fun isEmpty => ?_⟩
  have nothing : inside = .empty := by
    cases inside <;> simp_all [Folder.isEmpty]
  refine ⟨_, _, reachable.anchored.removeFolder_below reaches leads isEmpty,
    .updateFolder reachable.anchored.inside (fun here ordered => ?_) above, ?_⟩
  · exact ordered.erase name
  · exact Folder.replaced_eraseEmpty reaches.leads (nothing ▸ leads)

end Removing

/-- Only folders that are asked for are removed. -/
theorem removeEmptyFolders_removes
    (session : Session)
    (reachable : Reachable session.disk root home folder)
    {folders : List DocumentPath}
    (normal : ∀ path ∈ folders, path.IsNormal)
    (distinct : (folders.map DocumentPath.location).Nodup)
    (present : ∀ path ∈ folders, folder.look path.location = some .folder) :
    ∃ changed newFolder events,
      removeEmptyFolders root folders session = .ok () ⟨changed, events⟩ ∧
      ChangedAt home session.disk folder changed newFolder ∧
      folder.Pruned (folders.map DocumentPath.location) newFolder := by
  induction folders generalizing session folder with
  | nil =>
      exact ⟨session.disk, folder, session.events, rfl, .refl reachable.anchored.inside,
        .refl _ _⟩
  | cons path above inductionHypothesis =>
      obtain ⟨normalHere, normalAbove⟩ := List.forall_mem_cons.mp normal
      obtain ⟨presentHere, presentAbove⟩ := List.forall_mem_cons.mp present
      rw [List.map_cons, List.nodup_cons] at distinct
      obtain ⟨inside, read, removes⟩ :=
        removeFolder_within reachable normalHere presentHere
      rw [removeEmptyFolders]
      simp only [read]
      cases isEmpty : inside.isEmpty with
      | false =>
          exact ⟨session.disk, folder, session.events, rfl, .refl reachable.anchored.inside,
            .refl _ _⟩
      | true =>
          obtain ⟨changed, newFolder, removed, changedAt, replaced⟩ := removes isEmpty
          simp only [if_true, removed]
          let next : Session := ⟨changed, session.events ++ [.folderRemoved path]⟩
          rcases reachable.anchored.kept_or_lost changedAt
            (replaced.linkFree (by simp) reachable.anchored.linkFree)
            fun _ => replaced.look_folder_or_none with anchoredThen | lost
          · have presentThen : ∀ other ∈ above,
                newFolder.look other.location = some .folder := by
              intro other member
              rw [replaced.look_of_ne, presentAbove other member]
              intro same
              exact distinct.1 (same ▸ List.mem_map_of_mem member)
            obtain ⟨last, lastFolder, events, done, changedOn, pruned⟩ :=
              inductionHypothesis next (reachable.after changedAt anchoredThen) normalAbove
                distinct.2 presentThen
            exact ⟨last, lastFolder, events, done, changedAt.trans changedOn,
              .cons presentHere replaced pruned⟩
          · exact ⟨changed, newFolder, next.events,
              removeEmptyFolders_of_lost next lost normalAbove,
              changedAt,
              .cons presentHere replaced (.refl _ _)⟩

section Persist

variable {source output : DocumentPath} {content : Text} {session : Session}

/-- A document whose folders cannot be made fails with the reason. -/
theorem persistDocument_of_refused
    {changed : Disk}
    {cause : DiskError}
    (refused : makeFolders (Route.ofText (output.within root)).parent session.disk =
      .error cause changed) :
    persistDocument root source output content session =
      .error (.write (output.within root) cause) { session with disk := changed } := by
  simp only [persistDocument, persistDocumentUnder, makeFoldersUnder, bind, EStateM.bind,
    VaultAction.onDisk, refused]

section Staged

variable {made written ready changed : Disk} {mode : Nat}
  (madeFolders : makeFolders (Route.ofText (output.within root)).parent session.disk =
    .ok () made)
  (staged : stageFile {} (Route.ofText (output.within root)).parent (Utf8.encode content) made =
    .ok () written)
  (modeOfSource : written.mode? (Route.ofText (source.within root)) = some mode)
  (modeSet : setStagedMode mode written = .ok () ready)

include madeFolders staged modeOfSource modeSet

/-- What is left to be done when the temporary file is ready. -/
private theorem persistDocument_of_ready :
    persistDocument root source output content session =
      placeDocument none root source output ⟨ready, session.events⟩ := by
  have bitsSet := orDiscard_of_ok modeSet
  simp only [persistDocument, persistDocumentUnder, makeFoldersUnder, unlessRefused, bind,
    EStateM.bind, VaultAction.onDisk, VaultAction.disk, madeFolders, staged, modeOfSource, bitsSet]

/-- A document that stays where it is replaces its source. -/
private theorem persistDocument_of_replaced
    (same : source.sameComponents output = true)
    (committed : commitStaged (Route.ofText (output.within root)) .allowed ready =
      .ok () changed) :
    persistDocument root source output content session =
      .ok () ⟨changed, session.events ++ [.rewrote source]⟩ := by
  rw [persistDocument_of_ready madeFolders staged modeOfSource modeSet]
  simp only [placeDocument, unlessRefused, bind, EStateM.bind, VaultAction.onDisk,
    VaultAction.note, same, if_true, orDiscard_of_ok committed]

/-- The temporary file of a document is removed where it is given no name. -/
private theorem persistDocument_of_taken
    (different : source.sameComponents output = false)
    {temporary : StagedFile}
    (onTop : ready = { made with staged := temporary :: made.staged })
    {cause : DiskError}
    (refused : commitStaged (Route.ofText (output.within root)) .never ready =
      .error cause ready) :
    persistDocument root source output content session =
      .error (.write (output.within root) cause) ⟨made, session.events⟩ := by
  rw [persistDocument_of_ready madeFolders staged modeOfSource modeSet]
  subst onTop
  simp only [placeDocument, unlessRefused, bind, EStateM.bind, VaultAction.onDisk, different,
    Bool.false_eq_true, if_false, orDiscard_of_error refused]

/-- A document that moves leaves no source and no empty folders behind. -/
private theorem persistDocument_of_moved
    (different : source.sameComponents output = false)
    (committed : commitStaged (Route.ofText (output.within root)) .never ready =
      .ok () changed)
    {without : Disk}
    (removed : removeFile (Route.ofText (source.within root)) changed = .ok () without)
    {last : Session}
    (pruned : removeEmptyFolders root source.enclosingFolders ⟨without, session.events⟩ =
      .ok () last) :
    persistDocument root source output content session =
      .ok () { last with events := last.events ++ [.renamed source output] } := by
  rw [persistDocument_of_ready madeFolders staged modeOfSource modeSet]
  simp only [placeDocument, unlessRefused, bind, EStateM.bind, VaultAction.onDisk,
    VaultAction.note, different, Bool.false_eq_true, if_false, orDiscard_of_ok committed, removed,
    pruned]

end Staged

/-- The disk with one more temporary file. -/
private def withTemporary
    (disk : Disk)
    (place : Location)
    (file : RegularFile) :
    Disk :=
  { disk with staged := ⟨place, file⟩ :: disk.staged }

section Staging

variable {disk : Disk} (reachable : Reachable disk root home folder)
  (outputNormal : output.IsNormal) {above : Location} {name : Name}
  (shape : output.location = above ++ [name])

include reachable outputNormal shape

/-- The temporary file is written beside the output and has the bits of the source. -/
private theorem exists_staged
    (normal : source.IsNormal)
    {was : RegularFile}
    (found : folder.look source.location = some (.leaf (.file was)))
    {inside : Folder}
    (accessed : folder.access above = .ok inside)
    (content : Text) :
    ∃ written,
      stageFile {} (Route.ofText (output.within root)).parent (Utf8.encode content) disk =
        .ok () written ∧
      written.mode? (Route.ofText (source.within root)) = some was.mode ∧
      setStagedMode was.mode written =
        .ok () (withTemporary disk (home ++ above) ⟨was.mode, Utf8.encode content⟩) := by
  have plainAbove : ∀ other ∈ above, other.IsPlain := fun other member =>
    outputNormal.plain other (shape ▸ List.mem_append_left _ member)
  obtain ⟨other, parent, somewhere, sameMoves⟩ :=
    Route.parent_below (Route.ofText root) above name
  obtain ⟨sourceAbove, sourceName, sourceShape⟩ := location_eq_concat normal
  rw [sourceShape] at found
  obtain ⟨around, reaches⟩ := reachable.folder_wellFormed.reaches found
  refine ⟨withTemporary disk (home ++ above) ⟨0o600, Utf8.encode content⟩, ?_, ?_, rfl⟩
  · rw [outputNormal.isNamed.route_within, shape, parent]
    exact (reachable.anchored.of_same_moves sameMoves).stageFile_below plainAbove somewhere
      accessed _
  · rw [normal.isNamed.route_within, sourceShape]
    exact (reachable.anchored.withStaged _).mode?_below reaches found

/-- Only folders around the output are made for it. -/
private theorem makeFolders_parent :
    Made home above disk folder
      (makeFolders (Route.ofText (output.within root)).parent disk) := by
  have plainAbove : ∀ other ∈ above, other.IsPlain := fun other member =>
    outputNormal.plain other (shape ▸ List.mem_append_left _ member)
  obtain ⟨other, parent, -, sameMoves⟩ := Route.parent_below (Route.ofText root) above name
  rw [outputNormal.isNamed.route_within, shape, parent]
  exact (reachable.anchored.of_same_moves sameMoves).makeFolders_made above plainAbove

private theorem makeFolders_of_accessed
    {inside : Folder}
    (accessed : folder.access above = .ok inside) :
    makeFolders (Route.ofText (output.within root)).parent disk = .ok () disk := by
  have notFree : ¬ folder.IsFree above := by simp [Folder.IsFree, accessed]
  have made := makeFolders_parent reachable outputNormal shape
  generalize makeFolders (Route.ofText (output.within root)).parent disk = result at *
  cases made with
  | done _ _ _ unchanged => rw [unchanged notFree]
  | refused changedAt _ blocks _ unchanged =>
      have sameFolder :=
        (unchanged notFree ▸ changedAt.after).symm.trans reachable.anchored.inside
      obtain ⟨cause, -, refused⟩ := blocks
      rw [Option.some.inj sameFolder, accessed] at refused
      cases refused

/-- The temporary file is given the name of the output, which changes that place only. -/
private theorem commitStaged_within
    {inside : Folder}
    (reaches : folder.Reaches above name inside)
    (file : RegularFile)
    {replacement : Replacement}
    (placeable : folder.look output.location = none ∨
      replacement = .allowed ∧ ∃ was, folder.look output.location = some (.leaf (.file was))) :
    ∃ changed newFolder,
      commitStaged (Route.ofText (output.within root)) replacement
        (withTemporary disk (home ++ above) file) = .ok () changed ∧
      ChangedAt home disk folder changed newFolder ∧
      folder.Replaced output.location (some (.leaf (.file file))) newFolder ∧
      (folder.look output.location = some (.leaf (.file file)) → changed = disk) := by
  have temporary : (withTemporary disk (home ++ above) file).Anchored (Route.ofText root) home
      folder := reachable.anchored.withStaged _
  rw [shape] at placeable
  have notFolder : folder.look (above ++ [name]) ≠ some .folder := by
    rcases placeable with missing | ⟨-, was, found⟩
    · simp [missing]
    · simp [found]
  have committed := temporary.commitStaged_below reaches rfl placeable
  rw [← shape, ← outputNormal.isNamed.route_within] at committed
  refine ⟨_, _, committed,
    .updateFolder reachable.anchored.inside (fun here ordered => ?_) above, ?_, ?_⟩
  · exact ordered.insertLeaf reaches.valid (.file file)
  · rw [shape]
    exact Folder.replaced_putLeaf reaches.leads notFolder _
  · -- A file that is there already is inserted where it is.
    intro same
    rw [shape, Folder.look_concat name reaches.leads, Option.map_eq_some_iff] at same
    obtain ⟨entry, entryFound, kind⟩ := same
    have isFile : entry = .leaf (.file file) := by
      cases entry <;> simp_all [Entry.kind]
    have wholeLeads : disk.top.folderAt? (home ++ above) = some inside := by
      rw [Folder.folderAt?_append, reachable.anchored.inside]
      exact reaches.leads
    have unchanged := Folder.insert_eq_self (reachable.wellFormed.folderAt? wholeLeads)
      (isFile ▸ entryFound)
    exact congrArg (fun top => { disk with top := top })
      (Folder.update_eq_self reachable.wellFormed wholeLeads unchanged)

/-- A name that is taken is not given to the temporary file. -/
private theorem commitStaged_taken
    {inside : Folder}
    (accessed : folder.access above = .ok inside)
    (file : RegularFile)
    (taken : ¬ folder.IsFree output.location) :
    ∃ cause, commitStaged (Route.ofText (output.within root)) .never
      (withTemporary disk (home ++ above) file) =
        .error cause (withTemporary disk (home ++ above) file) := by
  have temporary : (withTemporary disk (home ++ above) file).Anchored (Route.ofText root) home
      folder := reachable.anchored.withStaged _
  rw [outputNormal.isNamed.route_within, shape]
  exact temporary.commitStaged_refused (shape ▸ outputNormal.plain) accessed rfl (shape ▸ taken)

end Staging

private theorem sameComponents_eq_false
    (different : output.location ≠ source.location) :
    source.sameComponents output = false := by
  rw [DocumentPath.sameComponents, decide_eq_false_iff_not, ← DocumentPath.location_inj]
  exact Ne.symm different

/-- A document whose output names the same file takes its own place. -/
theorem persistDocument_inPlace
    (session : Session)
    (reachable : Reachable session.disk root home folder)
    (normal : source.IsNormal)
    (outputNormal : output.IsNormal)
    (same : output.location = source.location)
    {was : RegularFile}
    (found : folder.look source.location = some (.leaf (.file was)))
    (content : Text) :
    ∃ changed newFolder events,
      persistDocument root source output content session = .ok () ⟨changed, events⟩ ∧
      ChangedAt home session.disk folder changed newFolder ∧
      folder.Replaced source.location (some (.leaf (.file ⟨was.mode, Utf8.encode content⟩)))
        newFolder ∧
      (was.content = Utf8.encode content → changed = session.disk) := by
  obtain ⟨above, name, shape⟩ := location_eq_concat outputNormal
  have foundHere := found
  rw [← same, shape] at foundHere
  obtain ⟨inside, reaches⟩ := reachable.folder_wellFormed.reaches foundHere
  have madeFolders := makeFolders_of_accessed reachable outputNormal shape reaches.accessed
  obtain ⟨written, staged, modeOfSource, modeSet⟩ :=
    exists_staged reachable outputNormal shape normal found reaches.accessed content
  have sameComponents : source.sameComponents output = true := by
    rw [DocumentPath.sameComponents, decide_eq_true_iff, ← DocumentPath.location_inj, same]
  rw [← same] at found ⊢
  obtain ⟨changed, newFolder, committed, changedAt, replaced, unchanged⟩ :=
    commitStaged_within reachable outputNormal shape reaches
      ⟨was.mode, Utf8.encode content⟩ (.inr ⟨rfl, was, found⟩)
  refine ⟨changed, newFolder, _,
    persistDocument_of_replaced madeFolders staged modeOfSource modeSet sameComponents committed,
    changedAt, replaced, fun sameContent => unchanged ?_⟩
  rw [found, ← sameContent]

/-- What comes of storing a document under another path than its own. -/
inductive Relocated
    (home source target : Location)
    (file : RegularFile)
    (session : Session)
    (folder : Folder) :
    EStateM.Result VaultError Session Unit → Prop where
  | moved {changed : Disk} {newFolder : Folder} {events : List Event} :
      ChangedAt home session.disk folder changed newFolder →
      folder.Moved source target file newFolder →
      Relocated home source target file session folder (.ok () ⟨changed, events⟩)
  | refused {changed : Disk} {newFolder : Folder} {path : Text} {cause : DiskError} :
      ChangedAt home session.disk folder changed newFolder →
      folder.Grown target newFolder →
      ¬ newFolder.IsFree target →
      (¬ folder.IsFree target → changed = session.disk) →
      Relocated home source target file session folder
        (.error (.write path cause) ⟨changed, session.events⟩)

/-- The folders that a document leaves empty are removed. -/
private theorem removeEmptyFolders_enclosing
    (session : Session)
    (reachable : Reachable session.disk root home folder)
    (normal : source.IsNormal)
    {before : Folder}
    {content : Leaf}
    (found : before.look source.location = some (.leaf content))
    (removed : before.Replaced source.location none folder) :
    ∃ changed newFolder events,
      removeEmptyFolders root source.enclosingFolders session = .ok () ⟨changed, events⟩ ∧
      ChangedAt home session.disk folder changed newFolder ∧
      folder.Pruned (source.enclosingFolders.map DocumentPath.location) newFolder := by
  apply removeEmptyFolders_removes session reachable
  · intro path member
    exact (DocumentPath.enclosingFolders_onTheWay normal member).1
  · exact DocumentPath.nodup_enclosingFolders normal
  · intro path member
    obtain ⟨-, ⟨below, isPrefix⟩, notSource⟩ :=
      DocumentPath.enclosingFolders_onTheWay normal member
    have below_ne_nil : below ≠ [] := by
      rintro rfl
      exact notSource (by simpa using isPrefix)
    rw [removed.look_of_ne notSource]
    exact Folder.look_eq_folder_of_look_append below_ne_nil (isPrefix ▸ found)

/-- A document is moved to a free place in a folder that is there. -/
private theorem exists_moved
    {made written : Disk}
    {mode : Nat}
    {file : RegularFile}
    {above : Location}
    (madeFolders : makeFolders (Route.ofText (output.within root)).parent session.disk =
      .ok () made)
    (staged : stageFile {} (Route.ofText (output.within root)).parent (Utf8.encode content) made =
      .ok () written)
    (modeOfSource : written.mode? (Route.ofText (source.within root)) = some mode)
    (modeSet : setStagedMode mode written = .ok () (withTemporary made (home ++ above) file))
    (reachable : Reachable made root home folder)
    (normal : source.IsNormal)
    (outputNormal : output.IsNormal)
    (different : output.location ≠ source.location)
    {was : RegularFile}
    (found : folder.look source.location = some (.leaf (.file was)))
    {name : Name}
    (shape : output.location = above ++ [name])
    {inside : Folder}
    (accessed : folder.access above = .ok inside)
    (free : folder.IsFree output.location) :
    ∃ changed newFolder events,
      persistDocument root source output content session = .ok () ⟨changed, events⟩ ∧
      ChangedAt home made folder changed newFolder ∧
      folder.Moved source.location output.location file newFolder := by
  have missing := Folder.look_eq_none_of_isFree free
  have fits : name.size ≤ maximalNameSize := by
    rw [shape, Folder.IsFree, Folder.access_concat name accessed] at free
    by_contra long
    simp [Nat.lt_of_not_le long] at free
  have reaches : folder.Reaches above name inside := ⟨shape ▸ outputNormal.plain, fits, accessed⟩
  obtain ⟨placed, placedFolder, committed, placedChange, places, -⟩ :=
    commitStaged_within reachable outputNormal shape reaches file
      (.inl missing : _ ∨ Replacement.never = .allowed ∧ _)
  have placedReachable := reachable.replaced placedChange places (by simp [missing]) (by simp)
  have stillFound := (places.look_of_ne (Ne.symm different)).trans found
  obtain ⟨without, withoutFolder, removed, withoutChange, removes⟩ :=
    removeFile_within placedReachable normal stillFound
  have withoutReachable :=
    placedReachable.replaced withoutChange removes (by simp [stillFound]) (by simp)
  obtain ⟨changed, newFolder, events, pruned, prunedChange, prunes⟩ :=
    removeEmptyFolders_enclosing ⟨without, session.events⟩ withoutReachable normal stillFound
      removes
  refine ⟨changed, newFolder, _,
    persistDocument_of_moved madeFolders staged modeOfSource modeSet
      (sameComponents_eq_false different) committed removed pruned,
    (placedChange.trans withoutChange).trans prunedChange,
    Folder.moved_of_steps different free places removes prunes ?_⟩
  intro place member
  obtain ⟨path, isEnclosing, rfl⟩ := List.mem_map.mp member
  exact (DocumentPath.enclosingFolders_onTheWay normal isEnclosing).2.1

/-- A document whose output names another file is moved there, or something is in the way. -/
theorem persistDocument_relocated
    (session : Session)
    (reachable : Reachable session.disk root home folder)
    (normal : source.IsNormal)
    (outputNormal : output.IsNormal)
    (different : output.location ≠ source.location)
    {was : RegularFile}
    (found : folder.look source.location = some (.leaf (.file was)))
    (content : Text) :
    Relocated home source.location output.location ⟨was.mode, Utf8.encode content⟩ session folder
      (persistDocument root source output content session) := by
  obtain ⟨above, name, shape⟩ := location_eq_concat outputNormal
  have onTheWay : above <+: output.location := shape ▸ List.prefix_append above [name]
  have freeAbove : folder.IsFree above → folder.IsFree output.location := fun free =>
    shape ▸ free.append [name]
  have madeFolders := makeFolders_parent reachable outputNormal shape
  cases result : makeFolders (Route.ofText (output.within root)).parent session.disk with
  | error cause changed =>
      rw [result] at madeFolders
      rw [persistDocument_of_refused result]
      cases madeFolders with
      | refused changedAt grown blocks _ unchanged =>
          exact .refused changedAt (grown.mono onTheWay) (shape ▸ (blocks.append [name]).not_isFree)
            fun taken => unchanged (mt freeAbove taken)
  | ok _ made =>
      rw [result] at madeFolders
      cases madeFolders with
      | @done _ newFolder inside changedAt grown accessed unchanged =>
          have reachableThen := reachable.grown changedAt grown
          have foundThen := grown.look_of_look found
          obtain ⟨written, staged, modeOfSource, modeSet⟩ :=
            exists_staged reachableThen outputNormal shape normal foundThen accessed content
          by_cases free : newFolder.IsFree output.location
          · obtain ⟨changed, last, events, done, changedOn, moved⟩ :=
              exists_moved result staged modeOfSource modeSet reachableThen normal outputNormal
                different foundThen shape accessed free
            rw [done]
            exact .moved (changedAt.trans changedOn) ((grown.mono onTheWay).moved moved)
          · obtain ⟨cause, refused⟩ :=
              commitStaged_taken reachableThen outputNormal shape accessed _ free
            rw [persistDocument_of_taken result staged modeOfSource modeSet
              (sameComponents_eq_false different) rfl refused]
            exact .refused changedAt (grown.mono onTheWay) free
              fun taken => unchanged (mt freeAbove taken)

end Persist

end Vault

end NotePublisher
