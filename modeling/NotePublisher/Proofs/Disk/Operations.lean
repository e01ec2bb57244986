import NotePublisher.Proofs.Disk.Anchored
import NotePublisher.Proofs.Disk.Staging
import Mathlib.Data.List.Induction

namespace NotePublisher

/-!
# Operations below an anchored base

What each operation of the file system does for a route below an anchored
base, said of the folder that the base leads to.
-/

namespace Folder

/-- Something other than a missing folder stands against a folder at the location. -/
def Blocks (here : Folder) (location : Location) : Prop :=
  ∃ cause, cause ≠ .notFound ∧ here.access location = .error cause

/-- One more step is taken from the folder that the others led to. -/
theorem access_concat
    {above : Location}
    (name : Name)
    {here inside : Folder}
    (accessed : here.access above = .ok inside) :
    here.access (above ++ [name]) =
      if Disk.maximalNameSize < name.size then
        .error .nameTooLong
      else
        match inside.find? name with
        | none => .error .notFound
        | some (.leaf _) => .error .notADirectory
        | some (.folder children) => .ok children := by
  rw [access_append, accessed]
  cases found : inside.find? name with
  | none => simp only [access, found]
  | some entry => cases entry <;> simp only [access, found]

/-- Steps fail for other reasons than that something is there already. -/
theorem access_ne_alreadyExists
    {location : Location}
    {here : Folder}
    {cause : DiskError}
    (refused : here.access location = .error cause) :
    cause ≠ .alreadyExists := by
  induction location generalizing here with
  | nil =>
      cases refused
  | cons name rest inductionHypothesis =>
      rw [access] at refused
      by_cases long : Disk.maximalNameSize < name.size
      · rw [if_pos long] at refused
        cases refused
        simp
      · rw [if_neg long] at refused
        cases found : here.find? name with
        | none =>
            rw [found] at refused
            cases refused
            simp
        | some entry =>
            rw [found] at refused
            cases entry with
            | leaf content =>
                cases refused
                simp
            | folder children => exact inductionHypothesis refused

theorem Blocks.append
    {here : Folder}
    {above : Location}
    (blocks : here.Blocks above)
    (below : Location) :
    here.Blocks (above ++ below) := by
  obtain ⟨cause, other, refused⟩ := blocks
  exact ⟨cause, other, by rw [access_append, refused]⟩

theorem Blocks.not_isFree
    {here : Folder}
    {location : Location}
    (blocks : here.Blocks location) :
    ¬ here.IsFree location := by
  obtain ⟨cause, other, refused⟩ := blocks
  intro free
  rw [IsFree, refused, Except.error.injEq] at free
  exact other free

end Folder

namespace Disk

/-- What comes of making the folders on the way to a location. -/
inductive Made
    (home location : Location)
    (disk : Disk)
    (folder : Folder) :
    EStateM.Result DiskError Disk Unit → Prop where
  | done {changed : Disk} {newFolder made : Folder} :
      ChangedAt home disk folder changed newFolder →
      folder.Grown location newFolder →
      newFolder.access location = .ok made →
      (¬ folder.IsFree location → changed = disk) →
      Made home location disk folder (.ok () changed)
  | refused {changed : Disk} {newFolder : Folder} {cause : DiskError} :
      ChangedAt home disk folder changed newFolder →
      folder.Grown location newFolder →
      newFolder.Blocks location →
      cause ≠ .notFound →
      (¬ folder.IsFree location → changed = disk) →
      Made home location disk folder (.error cause changed)

/-- Folders made after others, where the location was free at first. -/
theorem Made.after
    {home location : Location}
    {disk changed : Disk}
    {folder newFolder : Folder}
    {result : EStateM.Result DiskError Disk Unit}
    (last : Made home location changed newFolder result)
    (changedAt : ChangedAt home disk folder changed newFolder)
    (grown : folder.Grown location newFolder)
    (free : folder.IsFree location) :
    Made home location disk folder result := by
  cases last with
  | done lastChange lastGrown reached _ =>
      exact .done (changedAt.trans lastChange) (grown.trans lastGrown) reached (absurd free)
  | refused lastChange lastGrown blocks other _ =>
      exact .refused (changedAt.trans lastChange) (grown.trans lastGrown) blocks other
        (absurd free)

section Along

variable {absolute : Bool} {step : Step} {above : List Step} {route : Route} {disk : Disk}

/-- Folders are made no further up than the first that can be made. -/
theorem makeFoldersAlong_of_done
    (shape : ⟨absolute, (step :: above).reverse, false⟩ = route)
    {changed : Disk}
    (done : makeFolderUnlessThere route disk = .ok () changed) :
    makeFoldersAlong absolute (step :: above) disk = .ok () changed := by
  subst shape
  simp only [makeFoldersAlong, done]

/-- Other failures than a missing folder above are final. -/
theorem makeFoldersAlong_of_refused
    (shape : ⟨absolute, (step :: above).reverse, false⟩ = route)
    {cause : DiskError}
    {same : Disk}
    (other : cause ≠ .notFound)
    (refused : makeFolderUnlessThere route disk = .error cause same) :
    makeFoldersAlong absolute (step :: above) disk = .error cause same := by
  subst shape
  cases cause <;> first
    | exact absurd rfl other
    | simp only [makeFoldersAlong, refused]

/-- Where the folder above is missing it is made first. -/
theorem makeFoldersAlong_of_notFound
    (shape : ⟨absolute, (step :: above).reverse, false⟩ = route)
    {same : Disk}
    (missing : makeFolderUnlessThere route disk = .error .notFound same) :
    makeFoldersAlong absolute (step :: above) disk =
      match makeFoldersAlong absolute above same with
      | .ok _ changed => makeFolderUnlessThere route changed
      | .error error changed => .error error changed := by
  subst shape
  cases rest : makeFoldersAlong absolute above same <;>
    simp only [makeFoldersAlong, missing, rest]

end Along

/-- The folders of a route that leads to a folder are there. -/
theorem makeFoldersAlong_of_leads
    {disk : Disk}
    {base : Route}
    {home : Location}
    (legible : base.holdsZero = false)
    (leads : disk.Leads maximalLinks (disk.start base) base.steps home) :
    makeFoldersAlong base.absolute base.steps.reverse disk = .ok () disk := by
  cases shape : base.steps.reverse with
  | nil => rfl
  | cons last before =>
      have steps : base.steps = before.reverse ++ [last] := by
        simpa using congrArg List.reverse shape
      have inTwo := leads
      rw [steps] at inTwo
      obtain ⟨left, middle, toMiddle, lastStep⟩ := inTwo.split
      obtain ⟨route, route_eq⟩ :
          ∃ route : Route, route = ⟨base.absolute, (last :: before).reverse, false⟩ :=
        ⟨_, rfl⟩
      have sameSteps : route.steps = base.steps := by simp [route_eq, steps]
      have legibleRoute : route.holdsZero = false := by
        rw [Route.holdsZero, sameSteps]
        exact legible
      have starts : disk.start route = disk.start base := by simp [start, route_eq]
      have located : disk.locate route = .ok (middle, last) := by
        simp [locate, legibleRoute, starts, sameSteps, steps, toMiddle.walk_eq, lastStep.starts]
      have isThere : disk.isFolder route = true := by
        have allSteps : route.allSteps = base.steps := by
          simp [Route.allSteps, route_eq, steps]
        have somewhere : route.isNowhere = false := by
          simp [Route.isNowhere, sameSteps, steps]
        simp [isFolder, inspect, resolve, legibleRoute, somewhere, starts, allSteps,
          leads.walk_eq, leads.arrives]
      have refused : makeFolder route disk = .error .alreadyExists disk := by
        rw [makeFolder, located]
        cases lastStep with
        | stay => rfl
        | up => rfl
        | enter _ fits entered => simp [Nat.not_lt.mpr fits, entered]
        | follow _ fits linked => simp [Nat.not_lt.mpr fits, linked]
      exact makeFoldersAlong_of_done route_eq.symm
        (by simp [makeFolderUnlessThere, refused, isThere])

theorem route_enter_below
    (base : Route)
    (above : Location)
    (name : Name) :
    (⟨base.absolute, (.enter name :: (base.below above).steps.reverse).reverse, false⟩ : Route) =
      base.below (above ++ [name]) := by
  simp [Route.below]

namespace Anchored

variable {disk : Disk} {base : Route} {home above : Location} {name : Name}
  {folder inside : Folder}

theorem look_concat
    (anchored : disk.Anchored base home folder)
    (name : Name)
    (accessed : folder.access above = .ok inside) :
    disk.look (home ++ above ++ [name]) = (inside.find? name).map Entry.kind := by
  rw [List.append_assoc, anchored.look_append]
  exact Folder.look_concat name (Folder.access_eq_ok_iff.mp accessed).2

/-- Inspecting a path below a root finds what its folder lists. -/
theorem inspect_below
    (anchored : disk.Anchored base home folder)
    (reaches : folder.Reaches above name inside) :
    disk.inspect (base.below (above ++ [name])) =
      match inside.find? name with
      | none => .error .notFound
      | some entry => .ok entry.kind := by
  have kind := anchored.look_concat name reaches.accessed
  rw [List.append_assoc] at kind
  rw [inspect, anchored.resolve_below reaches]
  simp only [kind]
  cases inside.find? name <;> rfl

/-- Making a folder below a root takes a free name in a folder that is there. -/
theorem makeFolder_below
    (anchored : disk.Anchored base home folder)
    (plain : ∀ other ∈ above ++ [name], other.IsPlain) :
    makeFolder (base.below (above ++ [name])) disk =
      match folder.access above with
      | .error cause => .error cause disk
      | .ok inside =>
          if maximalNameSize < name.size then
            .error .nameTooLong disk
          else
            match inside.find? name with
            | some _ => .error .alreadyExists disk
            | none =>
                .ok () (disk.updateFolder (home ++ above)
                  (·.insert name (.folder .empty))) := by
  rw [makeFolder, anchored.locate_below plain]
  cases accessed : folder.access above with
  | error cause => rfl
  | ok inside =>
      simp only [anchored.look_concat name accessed]
      cases inside.find? name <;> rfl

/-- Make one folder in a folder that is there. -/
theorem makeFolderUnlessThere_made
    (anchored : disk.Anchored base home folder)
    (plain : ∀ other ∈ above ++ [name], other.IsPlain)
    (accessed : folder.access above = .ok inside) :
    Made home (above ++ [name]) disk folder
      (makeFolderUnlessThere (base.below (above ++ [name])) disk) := by
  have outcome := anchored.makeFolder_below plain
  have reaches := Folder.access_concat name accessed
  have same := ChangedAt.refl anchored.inside
  rw [accessed] at outcome
  by_cases long : maximalNameSize < name.size
  · simp only [long, if_true] at outcome reaches
    simp only [makeFolderUnlessThere, outcome]
    exact .refused same (.refl folder) ⟨_, by simp, reaches⟩ (by simp) (fun _ => rfl)
  · simp only [long, if_false] at outcome reaches
    have fits := Nat.not_lt.mp long
    have kind := anchored.inspect_below ⟨plain, fits, accessed⟩
    cases found : inside.find? name with
    | some entry =>
        simp only [found] at outcome reaches kind
        simp only [makeFolderUnlessThere, outcome, isFolder, kind]
        cases entry with
        | leaf content =>
            exact .refused same (.refl folder) ⟨_, by simp, reaches⟩ (by simp) (fun _ => rfl)
        | folder children =>
            exact .done same (.refl folder) reaches (fun _ => rfl)
    | none =>
        simp only [found] at outcome reaches
        simp only [makeFolderUnlessThere, outcome]
        obtain ⟨aboveFits, leads⟩ := Folder.access_eq_ok_iff.mp accessed
        have missing : folder.look (above ++ [name]) = none := by
          simp [Folder.look_concat name leads, found]
        have replaced := Folder.replaced_putFolder leads missing
        have newInside := Folder.folderAt?_update_append
          (·.insert name (.folder .empty)) [] leads
        rw [List.append_nil] at newInside
        have reached : (folder.update (·.insert name (.folder .empty)) above).access
            (above ++ [name]) = .ok .empty := by
          refine Folder.access_eq_ok_iff.mpr ⟨aboveFits.concat fits, ?_⟩
          simp [Folder.folderAt?_append, newInside, Folder.folderAt?, Folder.update,
            Folder.find?_insert]
        refine .done (.updateFolder anchored.inside (fun here wellFormed => ?_) above) ?_
          reached (absurd reaches)
        · exact wellFormed.insert ⟨plain name (by simp), fits⟩ trivial
        · intro place
          by_cases atPlace : place = above ++ [name]
          · subst atPlace
            exact .inr ⟨missing, replaced.look_place, List.prefix_refl _⟩
          · exact .inl (replaced.look_of_ne atPlace)

section Next

variable (anchored : disk.Anchored base home folder)
  (plain : ∀ other ∈ above ++ [name], other.IsPlain)

include anchored plain

/-- In a folder that is there, one folder is made. -/
private theorem makeFoldersAlong_there
    (accessed : folder.access above = .ok inside) :
    Made home (above ++ [name]) disk folder
      (makeFoldersAlong base.absolute (.enter name :: (base.below above).steps.reverse) disk) := by
  have route := route_enter_below base above name
  have made := anchored.makeFolderUnlessThere_made plain accessed
  cases outcome : makeFolderUnlessThere (base.below (above ++ [name])) disk with
  | ok _ changed =>
      rw [makeFoldersAlong_of_done route outcome]
      exact outcome ▸ made
  | error cause changed =>
      rw [outcome] at made
      have other : cause ≠ .notFound := by
        cases made with
        | refused _ _ _ other _ => exact other
      rwa [makeFoldersAlong_of_refused route other outcome]

/-- Where something stands in the way above, no folder is made. -/
private theorem makeFoldersAlong_blocked
    {cause : DiskError}
    (other : cause ≠ .notFound)
    (accessed : folder.access above = .error cause) :
    Made home (above ++ [name]) disk folder
      (makeFoldersAlong base.absolute (.enter name :: (base.below above).steps.reverse) disk) := by
  have outcome := anchored.makeFolder_below plain
  rw [accessed] at outcome
  have refused : makeFolderUnlessThere (base.below (above ++ [name])) disk =
      .error cause disk := by
    have notThere := Folder.access_ne_alreadyExists accessed
    cases cause <;> first
      | exact absurd rfl notThere
      | simp only [makeFolderUnlessThere, outcome]
  rw [makeFoldersAlong_of_refused (route_enter_below base above name) other refused]
  have blocks : folder.Blocks (above ++ [name]) :=
    Folder.Blocks.append ⟨cause, other, accessed⟩ [name]
  exact .refused (.refl anchored.inside) (.refl folder) blocks other (fun _ => rfl)

/-- Where a folder above is missing, the folders above are made first. -/
private theorem makeFoldersAlong_missing
    (accessed : folder.access above = .error .notFound)
    (aboveMade : Made home above disk folder
      (makeFoldersAlong base.absolute (base.below above).steps.reverse disk)) :
    Made home (above ++ [name]) disk folder
      (makeFoldersAlong base.absolute (.enter name :: (base.below above).steps.reverse) disk) := by
  have outcome := anchored.makeFolder_below plain
  rw [accessed] at outcome
  have refused : makeFolderUnlessThere (base.below (above ++ [name])) disk =
      .error .notFound disk := by
    simp only [makeFolderUnlessThere, outcome]
  rw [makeFoldersAlong_of_notFound (route_enter_below base above name) refused]
  have free : folder.IsFree (above ++ [name]) :=
    Folder.IsFree.append accessed [name]
  cases result : makeFoldersAlong base.absolute (base.below above).steps.reverse disk with
  | error cause changed =>
      rw [result] at aboveMade
      cases aboveMade with
      | refused changedAt grown blocks other _ =>
          exact .refused changedAt (grown.mono (List.prefix_append above [name]))
            (blocks.append [name]) other (absurd free)
  | ok _ changed =>
      rw [result] at aboveMade
      cases aboveMade with
      | done changedAt grown reached _ =>
          have last := (anchored.grown changedAt grown).makeFolderUnlessThere_made plain reached
          exact last.after changedAt (grown.mono (List.prefix_append above [name])) free

end Next

/-- Making the folders of a location from the last to the first makes those that are missing. -/
theorem makeFoldersAlong_made
    (anchored : disk.Anchored base home folder)
    (location : Location)
    (plain : ∀ name ∈ location, name.IsPlain) :
    Made home location disk folder
      (makeFoldersAlong base.absolute (base.below location).steps.reverse disk) := by
  induction location using List.reverseRecOn with
  | nil =>
      have steps : (base.below []).steps = base.steps := by simp [Route.below]
      rw [steps, makeFoldersAlong_of_leads anchored.legible anchored.leads]
      exact .done (.refl anchored.inside) (.refl folder) rfl (fun _ => rfl)
  | append_singleton above name inductionHypothesis =>
      have aboveMade := inductionHypothesis fun other member =>
        plain other (List.mem_append_left _ member)
      have unfolded : (base.below (above ++ [name])).steps.reverse =
          .enter name :: (base.below above).steps.reverse := by
        simp [Route.below]
      rw [unfolded]
      cases accessed : folder.access above with
      | ok inside => exact makeFoldersAlong_there anchored plain accessed
      | error cause =>
          by_cases missing : cause = .notFound
          · subst missing
            exact makeFoldersAlong_missing anchored plain accessed aboveMade
          · exact makeFoldersAlong_blocked anchored plain missing accessed

/-- Making folders makes those on the way that are missing and nothing else. -/
theorem makeFolders_made
    (anchored : disk.Anchored base home folder)
    (location : Location)
    (plain : ∀ name ∈ location, name.IsPlain) :
    Made home location disk folder (makeFolders (base.below location) disk) := by
  have moving : Route.SameMoves ⟨base.absolute, base.movingSteps, false⟩ base :=
    ⟨rfl, by simp [Route.movingSteps, List.filter_filter]⟩
  have made := (anchored.of_same_moves moving).makeFoldersAlong_made location plain
  have steps : (Route.below ⟨base.absolute, base.movingSteps, false⟩ location).steps =
      (base.below location).movingSteps := by
    rw [Route.movingSteps_below]
    rfl
  rwa [steps] at made

/-- A temporary file is written in a folder where the device refuses nothing. -/
theorem stageFile_below
    (anchored : disk.Anchored base home folder)
    (plain : ∀ other ∈ above, other.IsPlain)
    (somewhere : (base.below above).isNowhere = false)
    (accessed : folder.access above = .ok inside)
    (content : ByteArray) :
    stageFile {} (base.below above) content disk =
      .ok () { disk with staged := ⟨home ++ above, ⟨0o600, content⟩⟩ :: disk.staged } := by
  have holdsFolder : disk.look (home ++ above) = some .folder := by
    rw [anchored.look_append]
    exact Folder.look_eq_folder_of_folderAt? (Folder.access_eq_ok_iff.mp accessed).2
  apply stageFile_of_created
  simp only [createStaged, anchored.resolve_folder plain somewhere accessed, holdsFolder]

/-- A temporary file is given a name that nothing stands for, or takes a file's place. -/
theorem commitStaged_below
    (anchored : disk.Anchored base home folder)
    (reaches : folder.Reaches above name inside)
    {staged : StagedFile}
    {others : List StagedFile}
    (written : disk.staged = staged :: others)
    {replacement : Replacement}
    (placeable : folder.look (above ++ [name]) = none ∨
      replacement = .allowed ∧ ∃ file, folder.look (above ++ [name]) = some (.leaf (.file file))) :
    commitStaged (base.below (above ++ [name])) replacement disk =
      .ok ()
        { disk.updateFolder (home ++ above) (·.insert name (.leaf (.file staged.file))) with
          staged := others } := by
  have kind : disk.look (home ++ above ++ [name]) = folder.look (above ++ [name]) := by
    rw [List.append_assoc, anchored.look_append]
  have notFolderOnly : (base.below (above ++ [name])).folderOnly = false := rfl
  simp only [commitStaged, written, anchored.locate_below reaches.plain, reaches.accessed,
    Nat.not_lt.mpr reaches.fits, kind, notFolderOnly]
  rcases placeable with missing | ⟨rfl, file, found⟩
  · cases replacement <;> simp [missing]
  · simp [found]

/-- A name that is taken, or is too long, is not given to a temporary file that replaces none. -/
theorem commitStaged_refused
    (anchored : disk.Anchored base home folder)
    (plain : ∀ other ∈ above ++ [name], other.IsPlain)
    (accessed : folder.access above = .ok inside)
    {staged : StagedFile}
    {others : List StagedFile}
    (written : disk.staged = staged :: others)
    (taken : ¬ folder.IsFree (above ++ [name])) :
    ∃ cause, commitStaged (base.below (above ++ [name])) .never disk = .error cause disk := by
  simp only [commitStaged, written, anchored.locate_below plain, accessed]
  by_cases long : maximalNameSize < name.size
  · exact ⟨.nameTooLong, by simp [long]⟩
  · rw [Folder.IsFree, Folder.access_concat name accessed] at taken
    simp only [long, if_false, anchored.look_concat name accessed] at taken ⊢
    cases found : inside.find? name with
    | none => simp [found] at taken
    | some entry => exact ⟨.alreadyExists, by simp⟩

/-- Removing a file below a root erases its name. -/
theorem removeFile_below
    (anchored : disk.Anchored base home folder)
    (reaches : folder.Reaches above name inside)
    {content : Leaf}
    (found : folder.look (above ++ [name]) = some (.leaf content)) :
    removeFile (base.below (above ++ [name])) disk =
      .ok () (disk.updateFolder (home ++ above) (·.erase name)) := by
  have kind : disk.look (home ++ above ++ [name]) = some (.leaf content) := by
    rw [List.append_assoc, anchored.look_append, found]
  have notFolderOnly : (base.below (above ++ [name])).folderOnly = false := rfl
  simp only [removeFile, anchored.locate_below reaches.plain, reaches.accessed,
    Nat.not_lt.mpr reaches.fits, kind, notFolderOnly, if_false, Bool.false_eq_true]

/-- Removing an empty folder below a root erases its name. -/
theorem removeFolder_below
    (anchored : disk.Anchored base home folder)
    (reaches : folder.Reaches above name inside)
    {emptied : Folder}
    (leads : folder.folderAt? (above ++ [name]) = some emptied)
    (isEmpty : emptied.isEmpty) :
    removeFolder (base.below (above ++ [name])) disk =
      .ok () (disk.updateFolder (home ++ above) (·.erase name)) := by
  have wholeLeads : disk.top.folderAt? (home ++ above ++ [name]) = some emptied := by
    rw [List.append_assoc, Folder.folderAt?_append, anchored.inside]
    exact leads
  simp only [removeFolder, anchored.locate_below reaches.plain, reaches.accessed,
    Nat.not_lt.mpr reaches.fits, wholeLeads, isEmpty, if_false, if_true]

/-- Listing a folder below a root finds what it holds. -/
theorem readFolder_below
    (anchored : disk.Anchored base home folder)
    (reaches : folder.Reaches above name inside)
    {found : Folder}
    (leads : folder.folderAt? (above ++ [name]) = some found) :
    disk.readFolder (base.below (above ++ [name])) = .ok found := by
  have wholeLeads : disk.top.folderAt? (home ++ (above ++ [name])) = some found := by
    rw [Folder.folderAt?_append, anchored.inside]
    exact leads
  simp only [readFolder, anchored.resolve_below reaches, wholeLeads]

section File

variable {file : RegularFile}

private theorem inspect_file
    (anchored : disk.Anchored base home folder)
    (reaches : folder.Reaches above name inside)
    (found : folder.look (above ++ [name]) = some (.leaf (.file file))) :
    disk.inspect (base.below (above ++ [name])) = .ok (.leaf (.file file)) := by
  rw [anchored.inspect_below reaches]
  rw [Folder.look_concat name reaches.leads, Option.map_eq_some_iff] at found
  obtain ⟨entry, entryFound, kind⟩ := found
  simp only [entryFound, kind]

/-- Reading a file below a root decodes its bytes. -/
theorem readText_below
    (anchored : disk.Anchored base home folder)
    (reaches : folder.Reaches above name inside)
    (found : folder.look (above ++ [name]) = some (.leaf (.file file))) :
    disk.readText (base.below (above ++ [name])) =
      match Utf8.decode? file.content with
      | none => .error .notText
      | some text => .ok text := by
  have read := anchored.inspect_file reaches found
  cases decoded : Utf8.decode? file.content <;>
    simp only [readText, readFile, read, decoded]

theorem mode?_below
    (anchored : disk.Anchored base home folder)
    (reaches : folder.Reaches above name inside)
    (found : folder.look (above ++ [name]) = some (.leaf (.file file))) :
    disk.mode? (base.below (above ++ [name])) = some file.mode := by
  simp only [mode?, anchored.inspect_file reaches found]

end File

end Anchored

/-- Without its base, nothing is found below it. -/
theorem Lost.resolve_below
    {disk : Disk}
    {base : Route}
    (lost : disk.Lost base)
    (location : Location) :
    ∃ cause, disk.resolve (base.below location) = .error cause := by
  obtain ⟨cause, failed⟩ := lost
  have allSteps : (base.below location).allSteps = base.steps ++ location.map .enter := by
    simp [Route.allSteps, Route.below]
  have starts : disk.start (base.below location) = disk.start base := rfl
  rw [resolve, allSteps, starts, walk_append_eq_error failed]
  by_cases zero : (base.below location).holdsZero
  · exact ⟨.zeroInName, by simp [zero]⟩
  · by_cases nowhere : (base.below location).isNowhere
    · exact ⟨.notFound, by simp [zero, nowhere]⟩
    · exact ⟨cause, by simp [zero, nowhere]⟩

/-- Nothing can be read below a root that is lost. -/
theorem Lost.readText_below
    {disk : Disk}
    {base : Route}
    (lost : disk.Lost base)
    (location : Location) :
    ∃ cause, disk.readText (base.below location) = .error cause := by
  obtain ⟨cause, unresolved⟩ := lost.resolve_below location
  exact ⟨cause, by simp [readText, readFile, inspect, unresolved]⟩

theorem Lost.readFolder_below
    {disk : Disk}
    {base : Route}
    (lost : disk.Lost base)
    (location : Location) :
    ∃ cause, disk.readFolder (base.below location) = .error cause := by
  obtain ⟨cause, unresolved⟩ := lost.resolve_below location
  exact ⟨cause, by simp [readFolder, unresolved]⟩

end Disk

end NotePublisher
