import NotePublisher.Proofs.Vault.Storing

namespace NotePublisher

/-!
# Folders that are left empty

Folders are removed one after another, until one of them is not empty
(`Vault.removeEmptyFolders_cons_cases`). All that goes is a first part of them,
and if the root still leads to the vault then, the next one holds something
(`Vault.removeEmptyFolders_trims`). When a document is published its new path
stands below the folders that keep theirs, so only such are removed whose path
publishing changes (`Vault.removeEmptyFolders_clears`).
-/

namespace Folder

/-- A folder that is not empty holds something under some name. -/
theorem exists_look_of_isEmpty_eq_false
    {here : Folder}
    (holds : here.isEmpty = false) :
    ∃ name, here.look [name] ≠ none := by
  cases here with
  | empty => cases holds
  | leaf name content others => exact ⟨name, by simp [look, find?]⟩
  | folder name children others => exact ⟨name, by simp [look, find?]⟩

end Folder

namespace Vault

open Disk

/-- Folders were removed, and everything else is as it was. -/
structure Trimmed
    (home : Location)
    (gone : List Location)
    (old new : Disk) : Prop where
  workingFolder : new.workingFolder = old.workingFolder
  staged : new.staged = old.staged
  removed : ∀ folder ∈ gone,
    old.look (home ++ folder) = some .folder ∧ new.look (home ++ folder) = none
  kept : ∀ place, (∀ folder ∈ gone, place ≠ home ++ folder) → new.look place = old.look place

theorem Trimmed.nil
    (home : Location)
    (disk : Disk) :
    Trimmed home [] disk disk where
  workingFolder := rfl
  staged := rfl
  removed _ member := nomatch member
  kept _ _ := rfl

theorem Trimmed.cons
    {home folder : Location}
    {gone : List Location}
    {old middle new : Disk}
    (replaced : Folder.Replaced (home ++ folder) none old.top middle.top)
    (workingFolder : middle.workingFolder = old.workingFolder)
    (staged : middle.staged = old.staged)
    (wasFolder : old.look (home ++ folder) = some .folder)
    (trimmed : Trimmed home gone middle new) :
    Trimmed home (folder :: gone) old new where
  workingFolder := trimmed.workingFolder.trans workingFolder
  staged := trimmed.staged.trans staged
  removed other member := by
    have goneHere : middle.look (home ++ folder) = none := replaced.look_place
    have notAgain {other : Location} (isGone : other ∈ gone) : home ++ other ≠ home ++ folder := by
      intro same
      cases goneHere.symm.trans (same ▸ (trimmed.removed other isGone).1)
    rcases List.mem_cons.mp member with rfl | later
    · refine ⟨wasFolder, (trimmed.kept _ fun _ isGone => ?_).trans goneHere⟩
      exact Ne.symm (notAgain isGone)
    · obtain ⟨isFolder, isGone⟩ := trimmed.removed other later
      exact ⟨(replaced.look_of_ne (notAgain later)).symm.trans isFolder, isGone⟩
  kept place elsewhere := by
    obtain ⟨elsewhereHere, elsewhereThere⟩ := List.forall_mem_cons.mp elsewhere
    exact (trimmed.kept place elsewhereThere).trans (replaced.look_of_ne elsewhereHere)

/-- A root that leads homeward does so when something is removed. -/
theorem Homeward.of_replaced
    {old new : Disk}
    {root : Text}
    {home place : Location}
    (homeward : Homeward old root home)
    (removed : Folder.Replaced place none old.top new.top)
    (workingFolder : new.workingFolder = old.workingFolder) :
    Homeward new root home := by
  have kept (other : Location) (kind : Kind) (found : new.look other = some kind) :
      old.look other = some kind := by
    by_cases atPlace : other = place
    · subst atPlace
      cases removed.look_place.symm.trans found
    · exact (removed.look_of_ne atPlace).symm.trans found
  exact fun there leads => homeward there (leads.of_kept workingFolder.symm kept)

/-- The first folder is removed and then the others are, or none is. -/
theorem removeEmptyFolders_cons_cases
    {root : Text}
    {path : DocumentPath}
    {above : List DocumentPath}
    {session last : Session}
    (done : removeEmptyFolders root (path :: above) session = .ok () last) :
    (∃ changed events, removeFolder (Route.ofText (path.within root)) session.disk =
        .ok () changed ∧
      removeEmptyFolders root above ⟨changed, events⟩ = .ok () last) ∨
    last.disk = session.disk ∧
      ∀ inside, session.disk.readFolder (Route.ofText (path.within root)) = .ok inside →
        inside.isEmpty = true →
        ∀ changed, removeFolder (Route.ofText (path.within root)) session.disk ≠
          .ok () changed := by
  simp only [removeEmptyFolders] at done
  cases read : session.disk.readFolder (Route.ofText (path.within root)) with
  | error cause =>
      simp only [read] at done
      cases done
      refine .inr ⟨rfl, fun _ isRead => ?_⟩
      cases isRead
  | ok inside =>
      cases isEmpty : inside.isEmpty with
      | false =>
          simp only [read, isEmpty] at done
          cases done
          refine .inr ⟨rfl, fun _ isRead holdsNothing => ?_⟩
          cases isRead
          cases isEmpty.symm.trans holdsNothing
      | true =>
          cases removed : removeFolder (Route.ofText (path.within root)) session.disk with
          | error cause same =>
              simp only [read, isEmpty, if_true, removed] at done
              cases done
              cases eq_of_removeFolder_eq_error removed
              refine .inr ⟨rfl, fun _ _ _ _ isRemoved => ?_⟩
              cases isRemoved
          | ok _ changed =>
              simp only [read, isEmpty, if_true, removed] at done
              exact .inl ⟨changed, _, rfl, done⟩

section Trimming

variable {root : Text} {home : Location} {path : DocumentPath} {disk : Disk}
  (legible : (Route.ofText root).holdsZero = false) (normal : path.IsNormal)
  (fits : Location.Fits path.location)

include legible normal fits

/-- A folder of the vault is removed where it stands. -/
private theorem replaced_of_removeFolder
    {changed : Disk}
    (homeward : Homeward disk root home)
    (present : disk.look (home ++ path.location) = some .folder)
    (removed : removeFolder (Route.ofText (path.within root)) disk = .ok () changed) :
    Folder.Replaced (home ++ path.location) none disk.top changed.top ∧
      changed.workingFolder = disk.workingFolder ∧ changed.staged = disk.staged := by
  obtain ⟨outer, name, shape⟩ := location_eq_concat normal
  rw [normal.isNamed.route_within, shape] at removed
  rcases removeFolder_cases ((Route.ofText root).below (outer ++ [name])) disk with
    ⟨cause, refused⟩ | ⟨around, other, last, done, exchanges, -, staged⟩
  · cases removed.symm.trans refused
  cases removed.symm.trans done
  obtain ⟨rfl, left, middle, toMiddle, -⟩ := exists_leads_of_locate_below exchanges.located
  cases homeward middle toMiddle
  have place_eq : home ++ outer ++ [other] = home ++ path.location := by
    rw [shape, List.append_assoc]
  have fitsOuter : Location.Fits outer := fun part member =>
    fits part (shape ▸ List.mem_append_left _ member)
  have holdsOuter : disk.look (home ++ outer) = some .folder :=
    Folder.look_eq_folder_of_look_append (List.cons_ne_nil other []) (place_eq ▸ present)
  have straight := locate_below_of_look toMiddle
    (Route.holdsZero_below legible (shape ▸ normal.plain)) fitsOuter holdsOuter
  cases exchanges.located.symm.trans straight
  rw [← place_eq]
  exact ⟨exchanges.replaced, exchanges.workingFolder, staged⟩

/-- A folder of the vault that is empty can be removed while the root leads to the vault. -/
private theorem exists_removeFolder
    (leads : LeadsHome disk root home)
    (bare : disk.top.folderAt? (home ++ path.location) = some .empty) :
    disk.readFolder (Route.ofText (path.within root)) = .ok .empty ∧
      ∃ changed, removeFolder (Route.ofText (path.within root)) disk = .ok () changed := by
  obtain ⟨outer, name, shape⟩ := location_eq_concat normal
  have legibleBelow := Route.holdsZero_below legible (shape ▸ normal.plain)
  have holdsFolder : disk.look (home ++ path.location) = some .folder :=
    Folder.look_eq_folder_of_folderAt? bare
  rw [shape] at fits bare holdsFolder
  rw [normal.isNamed.route_within, shape]
  have resolved := resolve_below_of_look leads legibleBelow fits holdsFolder (by simp [Kind.IsLink])
  rw [← List.append_assoc] at holdsFolder
  have located := locate_below_of_look leads legibleBelow
    (fun part member => fits part (List.mem_append_left _ member))
    (Folder.look_eq_folder_of_look_append (List.cons_ne_nil name []) holdsFolder)
  have short := Nat.not_lt.mpr (fits name (by simp))
  constructor
  · simp [readFolder, resolved, bare]
  · refine ⟨disk.updateFolder (home ++ outer) (·.erase name), ?_⟩
    simp [removeFolder, located, short, bare, Folder.isEmpty]

end Trimming

/--
A first part of the folders is removed. If the root leads to the vault in the
end, the next one is not empty.
-/
theorem removeEmptyFolders_trims
    {root : Text}
    {home : Location}
    {folders : List DocumentPath}
    (legible : (Route.ofText root).holdsZero = false)
    (normal : ∀ path ∈ folders, path.IsNormal)
    (fits : ∀ path ∈ folders, Location.Fits path.location)
    (distinct : (folders.map DocumentPath.location).Nodup)
    {session last : Session}
    (homeward : Homeward session.disk root home)
    (present : ∀ path ∈ folders, session.disk.look (home ++ path.location) = some .folder)
    (done : removeEmptyFolders root folders session = .ok () last) :
    ∃ gone stayed, folders.map DocumentPath.location = gone ++ stayed ∧
      Trimmed home gone session.disk last.disk ∧
      (LeadsHome last.disk root home → ∀ folder ∈ stayed.head?,
        ∃ name, last.disk.look (home ++ folder ++ [name]) ≠ none) := by
  induction folders generalizing session with
  | nil =>
      cases done
      exact ⟨[], [], rfl, .nil .., fun _ _ member => nomatch member⟩
  | cons path above inductionHypothesis =>
      obtain ⟨normalHere, normalAbove⟩ := List.forall_mem_cons.mp normal
      obtain ⟨fitsHere, fitsAbove⟩ := List.forall_mem_cons.mp fits
      obtain ⟨presentHere, presentAbove⟩ := List.forall_mem_cons.mp present
      rw [List.map_cons, List.nodup_cons] at distinct
      rcases removeEmptyFolders_cons_cases done with
        ⟨changed, events, removed, onward⟩ | ⟨unchanged, stops⟩
      · obtain ⟨replaced, workingFolder, staged⟩ :=
          replaced_of_removeFolder legible normalHere fitsHere homeward presentHere removed
        have presentThen (folder : DocumentPath) (member : folder ∈ above) :
            changed.look (home ++ folder.location) = some .folder := by
          refine (replaced.look_of_ne fun same => ?_).trans (presentAbove folder member)
          exact distinct.1 (List.append_cancel_left same ▸ List.mem_map_of_mem member)
        obtain ⟨gone, stayed, shape, trimmed, nonempty⟩ := inductionHypothesis normalAbove fitsAbove
          distinct.2 (homeward.of_replaced replaced workingFolder) presentThen onward
        exact ⟨path.location :: gone, stayed, by rw [List.map_cons, shape]; rfl,
          .cons replaced workingFolder staged presentHere trimmed, nonempty⟩
      · refine ⟨[], path.location :: above.map DocumentPath.location, rfl, ?_, ?_⟩
        · rw [unchanged]
          exact .nil ..
        · intro leads folder isNext
          cases isNext
          rw [unchanged] at leads ⊢
          obtain ⟨inside, leadsInside⟩ := Folder.exists_folderAt?_of_look presentHere
          have holds : inside.isEmpty = false := by
            cases inside with
            | empty =>
                obtain ⟨read, changed, removed⟩ :=
                  exists_removeFolder legible normalHere fitsHere leads leadsInside
                exact absurd removed (stops _ read rfl changed)
            | leaf | folder => rfl
          obtain ⟨name, found⟩ := Folder.exists_look_of_isEmpty_eq_false holds
          refine ⟨name, ?_⟩
          rwa [look, Folder.look_append [name] leadsInside]

/-- Empty folders were removed, none of which has a path that publishing keeps. -/
structure Cleared
    (home : Location)
    (folders : List DocumentPath)
    (old new : Disk) : Prop where
  workingFolder : new.workingFolder = old.workingFolder
  staged : new.staged = old.staged
  places : ∀ place, new.look place = old.look place ∨
    old.look place = some .folder ∧ new.look place = none ∧
      ∃ folder ∈ folders, ¬ Location.IsPublished folder.location ∧
        place = home ++ folder.location

/-- Folders that are asked for are removed; something stands below those that keep their path. -/
theorem removeEmptyFolders_clears
    {root : Text}
    {home post : Location}
    {folders : List DocumentPath}
    (legible : (Route.ofText root).holdsZero = false)
    (normal : ∀ path ∈ folders, path.IsNormal)
    (fits : ∀ path ∈ folders, Location.Fits path.location)
    (distinct : (folders.map DocumentPath.location).Nodup)
    (elsewhere : ∀ path ∈ folders, post ≠ home ++ path.location)
    (holdsPost : ∀ path ∈ folders, Location.IsPublished path.location →
      Location.IsBelow (home ++ path.location) post)
    {session last : Session}
    (homeward : Homeward session.disk root home)
    (present : ∀ path ∈ folders, session.disk.look (home ++ path.location) = some .folder)
    (standing : session.disk.look post ≠ none)
    (done : removeEmptyFolders root folders session = .ok () last) :
    Cleared home folders session.disk last.disk := by
  obtain ⟨gone, stayed, shape, trimmed, -⟩ :=
    removeEmptyFolders_trims legible normal fits distinct homeward present done
  have isAsked {folder : Location} (isGone : folder ∈ gone) :
      ∃ path ∈ folders, path.location = folder :=
    List.mem_map.mp (shape ▸ List.mem_append_left stayed isGone)
  refine ⟨trimmed.workingFolder, trimmed.staged, fun place => ?_⟩
  by_cases isGone : ∃ folder ∈ gone, place = home ++ folder
  · obtain ⟨folder, isGone, rfl⟩ := isGone
    obtain ⟨path, member, rfl⟩ := isAsked isGone
    obtain ⟨wasFolder, missing⟩ := trimmed.removed _ isGone
    refine .inr ⟨wasFolder, missing, path, member, fun published => ?_, rfl⟩
    -- What stands below the folder would have gone with it.
    obtain ⟨below, below_ne_nil, rfl⟩ := holdsPost path member published
    have still : last.disk.look (home ++ path.location ++ below) ≠ none := by
      rw [trimmed.kept _ fun other otherGone same => ?_]
      · exact standing
      · obtain ⟨otherPath, otherMember, rfl⟩ := isAsked otherGone
        exact elsewhere otherPath otherMember same
    obtain ⟨kind, found⟩ := Option.ne_none_iff_exists'.mp still
    cases missing.symm.trans (Folder.look_eq_folder_of_look_append below_ne_nil found)
  · push Not at isGone
    exact .inl (trimmed.kept place isGone)

end Vault

end NotePublisher
