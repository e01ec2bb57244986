import NotePublisher.Disk.Action
import NotePublisher.Proofs.Disk.Walk

namespace NotePublisher

/-!
# Routes below a folder

A disk is anchored when a base route leads to a folder without links. Routes
that go on from the base by entering names are then followed inside that
folder alone (`Disk.Anchored.locate_below`, `Disk.Anchored.resolve_below`).
A change of the folder keeps the anchor as long as it removes no folder;
otherwise the base may be lost, when its own route leads through what was
removed (`Disk.Anchored.kept`, `Disk.Anchored.kept_or_lost`).
-/

namespace Route

/-- The route to what names lead to from where another route leads. -/
def below (base : Route) (location : Location) : Route where
  absolute := base.absolute
  steps := base.steps ++ location.map .enter
  folderOnly := false

/-- Two routes that differ in steps that stay only. -/
structure SameMoves (left right : Route) : Prop where
  absolute : left.absolute = right.absolute
  moves : left.movingSteps = right.movingSteps

private theorem any_holdsZero_filter (steps : List Step) :
    (steps.filter (· != .stay)).any Step.holdsZero = steps.any Step.holdsZero := by
  induction steps with
  | nil =>
      rfl
  | cons step rest inductionHypothesis =>
      cases step <;> simp [Step.holdsZero, inductionHypothesis]

/-- Routes that make the same moves are legible together. -/
theorem SameMoves.holdsZero_eq
    {left right : Route}
    (same : left.SameMoves right) :
    left.holdsZero = right.holdsZero := by
  have moves := same.moves
  simp only [movingSteps] at moves
  rw [holdsZero, holdsZero, ← any_holdsZero_filter, moves, any_holdsZero_filter]

/-- A legible route can be extended by plain names. -/
theorem holdsZero_below
    {base : Route}
    {location : Location}
    (legible : base.holdsZero = false)
    (plain : ∀ name ∈ location, name.IsPlain) :
    (base.below location).holdsZero = false := by
  have plainSteps : (location.map Step.enter).any Step.holdsZero = false := by
    rw [List.any_map, List.any_eq_false]
    intro name member
    simpa [Step.holdsZero] using (plain name member).noZero
  simp only [holdsZero, below, List.any_append, Bool.or_eq_false_iff] at *
  exact ⟨legible, plainSteps⟩

theorem movingSteps_below
    (base : Route)
    (location : Location) :
    (base.below location).movingSteps = base.movingSteps ++ location.map .enter := by
  have entering : (location.map Step.enter).filter (· != .stay) = location.map .enter := by
    rw [List.filter_eq_self]
    intro step member
    obtain ⟨name, -, rfl⟩ := List.mem_map.mp member
    simp
  simp [movingSteps, below, entering]

/-- The folder around what a route leads to, as a route below the same base. -/
theorem parent_below
    (base : Route)
    (above : Location)
    (name : Name) :
    ∃ other : Route, (base.below (above ++ [name])).parent = other.below above ∧
      (other.below above).isNowhere = false ∧ other.SameMoves base := by
  have before : (((base.below (above ++ [name])).steps.reverse.dropWhile (· == .stay)).tail.reverse)
      = base.steps ++ above.map .enter := by
    simp [below]
  by_cases atStart : base.steps ++ above.map Step.enter = []
  · obtain ⟨noSteps, noNames⟩ := List.append_eq_nil_iff.mp atStart
    have above_eq_nil := List.map_eq_nil_iff.mp noNames
    subst above_eq_nil
    refine ⟨{ base with steps := [.stay] }, ?_, by simp [isNowhere, below], rfl, ?_⟩
    · simp only [parent, before]
      simp [below, noSteps]
    · simp [movingSteps, noSteps]
  · refine ⟨base, ?_, ?_, rfl, rfl⟩
    · have notEmpty : (base.steps ++ above.map Step.enter).isEmpty = false := by
        simpa using atStart
      simp only [parent, before, notEmpty, Bool.false_eq_true, if_false]
      rfl
    · simp only [isNowhere, below, Bool.and_eq_false_iff, List.isEmpty_eq_false_iff]
      exact .inr atStart

end Route

namespace Disk

/-- A base route leads to a folder without links. -/
structure Anchored
    (disk : Disk)
    (base : Route)
    (home : Location)
    (folder : Folder) : Prop where
  legible : base.holdsZero = false
  leads : disk.Leads maximalLinks (disk.start base) base.steps home
  inside : disk.top.folderAt? home = some folder
  linkFree : folder.LinkFree

/-- A base route leads nowhere any more. -/
def Lost (disk : Disk) (base : Route) : Prop :=
  ∃ cause, disk.walk true maximalLinks (disk.start base) base.steps = .error cause

/-- Two disks that differ in the folder at one location only. -/
structure ChangedAt
    (home : Location)
    (old : Disk)
    (oldFolder : Folder)
    (new : Disk)
    (newFolder : Folder) : Prop where
  before : old.top.folderAt? home = some oldFolder
  after : new.top.folderAt? home = some newFolder
  outside : ∀ location, ¬ home <+: location → new.look location = old.look location
  workingFolder : new.workingFolder = old.workingFolder
  staged : new.staged = old.staged
  wellFormed : old.top.WellFormed → new.top.WellFormed

namespace ChangedAt

variable {home : Location}

theorem refl
    {disk : Disk}
    {folder : Folder}
    (inside : disk.top.folderAt? home = some folder) :
    ChangedAt home disk folder disk folder where
  before := inside
  after := inside
  outside _ _ := rfl
  workingFolder := rfl
  staged := rfl
  wellFormed := id

theorem trans
    {first second third : Disk}
    {firstFolder secondFolder thirdFolder : Folder}
    (left : ChangedAt home first firstFolder second secondFolder)
    (right : ChangedAt home second secondFolder third thirdFolder) :
    ChangedAt home first firstFolder third thirdFolder where
  before := left.before
  after := right.after
  outside location notBelow :=
    (right.outside location notBelow).trans (left.outside location notBelow)
  workingFolder := right.workingFolder.trans left.workingFolder
  staged := right.staged.trans left.staged
  wellFormed := right.wellFormed ∘ left.wellFormed

theorem updateFolder
    {disk : Disk}
    {folder : Folder}
    (inside : disk.top.folderAt? home = some folder)
    {change : Folder → Folder}
    (keeps : ∀ here : Folder, here.WellFormed → (change here).WellFormed)
    (location : Location) :
    ChangedAt home disk folder (disk.updateFolder (home ++ location) change)
      (folder.update change location) where
  before := inside
  after := Folder.folderAt?_update_append change location inside
  outside _ notBelow :=
    Folder.look_update_of_not_below change disk.top fun below =>
      notBelow ((List.prefix_append home location).trans below)
  workingFolder := rfl
  staged := rfl
  wellFormed wellFormed := wellFormed.update keeps

/-- What was on the old disk is in the old folder or is still there. -/
theorem look_cases
    {old new : Disk}
    {oldFolder newFolder : Folder}
    (changed : ChangedAt home old oldFolder new newFolder)
    (location : Location) :
    (∃ below, old.look location = oldFolder.look below ∧
        new.look location = newFolder.look below) ∨
      new.look location = old.look location := by
  by_cases isBelow : home <+: location
  · obtain ⟨below, rfl⟩ := isBelow
    exact .inl ⟨below, Folder.look_append below changed.before,
      Folder.look_append below changed.after⟩
  · exact .inr (changed.outside location isBelow)

end ChangedAt

namespace Anchored

variable {disk : Disk} {base : Route} {home : Location} {folder : Folder}

/-- Routes that make the same moves are anchored at the same folder. -/
theorem of_same_moves
    (anchored : disk.Anchored base home folder)
    {other : Route}
    (same : other.SameMoves base) :
    disk.Anchored other home folder where
  legible := same.holdsZero_eq.trans anchored.legible
  leads := by
    have starts : disk.start other = disk.start base := by
      simp [start, same.absolute]
    rw [starts]
    exact anchored.leads.of_same_moves same.moves
  inside := anchored.inside
  linkFree := anchored.linkFree

/-- The anchor holds after a change that removes no folder and makes no link. -/
theorem kept
    (anchored : disk.Anchored base home folder)
    {new : Disk}
    {newFolder : Folder}
    (changed : ChangedAt home disk folder new newFolder)
    (linkFree : newFolder.LinkFree)
    (folders : ∀ location, folder.look location = some .folder →
      newFolder.look location = some .folder) :
    new.Anchored base home newFolder where
  legible := anchored.legible
  leads := by
    have starts : new.start base = disk.start base := by
      simp [start, changed.workingFolder]
    rw [starts]
    refine anchored.leads.kept ?_ ?_
    · intro location holdsFolder
      rcases changed.look_cases location with ⟨below, oldLook, newLook⟩ | same
      · exact newLook.trans (folders below (oldLook ▸ holdsFolder))
      · exact same.trans holdsFolder
    · intro location target linked
      rcases changed.look_cases location with ⟨below, oldLook, -⟩ | same
      · exact absurd (oldLook ▸ linked) (anchored.linkFree below target)
      · exact same.trans linked
  inside := changed.after
  linkFree := linkFree

/-- The anchor holds after a change of one place that neither is nor becomes a folder or link. -/
theorem replaced
    (anchored : disk.Anchored base home folder)
    {new : Disk}
    {newFolder : Folder}
    (changed : ChangedAt home disk folder new newFolder)
    {place : Location}
    {kind : Option Kind}
    (replaced : folder.Replaced place kind newFolder)
    (notFolder : folder.look place ≠ some .folder)
    (noLink : ∀ target, kind ≠ some (.leaf (.link target))) :
    new.Anchored base home newFolder := by
  apply anchored.kept changed (replaced.linkFree noLink anchored.linkFree)
  intro location holdsFolder
  exact replaced.look_folder notFolder holdsFolder

/-- The anchor holds when folders are made. -/
theorem grown
    (anchored : disk.Anchored base home folder)
    {new : Disk}
    {newFolder : Folder}
    (changed : ChangedAt home disk folder new newFolder)
    {location : Location}
    (grown : folder.Grown location newFolder) :
    new.Anchored base home newFolder := by
  apply anchored.kept changed (grown.linkFree anchored.linkFree)
  intro place holdsFolder
  exact grown.look_of_look holdsFolder

/-- After a change that removes folders the anchor holds or the base is lost. -/
theorem kept_or_lost
    (anchored : disk.Anchored base home folder)
    {new : Disk}
    {newFolder : Folder}
    (changed : ChangedAt home disk folder new newFolder)
    (linkFree : newFolder.LinkFree)
    (folders : ∀ location, folder.look location = some .folder →
      newFolder.look location = some .folder ∨ newFolder.look location = none) :
    new.Anchored base home newFolder ∨ new.Lost base := by
  have starts : new.start base = disk.start base := by
    simp [start, changed.workingFolder]
  have outcome : new.Leads maximalLinks (disk.start base) base.steps home ∨
      ∃ cause, new.walk true maximalLinks (disk.start base) base.steps = .error cause := by
    refine anchored.leads.kept_or_error ?_ ?_ (Folder.look_eq_folder_of_folderAt? changed.after)
    · intro location holdsFolder
      rcases changed.look_cases location with ⟨below, oldLook, newLook⟩ | same
      · rw [newLook]
        exact folders below (oldLook ▸ holdsFolder)
      · exact .inl (same.trans holdsFolder)
    · intro location target linked
      rcases changed.look_cases location with ⟨below, oldLook, -⟩ | same
      · exact absurd (oldLook ▸ linked) (anchored.linkFree below target)
      · exact same.trans linked
  rcases outcome with leads | failed
  · exact .inl ⟨anchored.legible, starts ▸ leads, changed.after, linkFree⟩
  · exact .inr (by rwa [Lost, starts])

/-- The disk shows at a folder's location what the folder holds. -/
theorem look_append
    (anchored : disk.Anchored base home folder)
    (location : Location) :
    disk.look (home ++ location) = folder.look location :=
  Folder.look_append location anchored.inside

/-- Names that lead to a folder within lead a walk there too. -/
theorem leads_below
    (anchored : disk.Anchored base home folder)
    {location : Location}
    {inside : Folder}
    (accessed : folder.access location = .ok inside) :
    disk.Leads maximalLinks (disk.start base) (base.below location).steps
      (home ++ location) := by
  refine anchored.leads.trans fun left => ?_
  have reached := reachFolder_enter anchored.inside anchored.linkFree left location
  rw [accessed] at reached
  have holdsFolder : disk.look (home ++ location) = some .folder := by
    rw [anchored.look_append]
    exact Folder.look_eq_folder_of_folderAt? (Folder.access_eq_ok_iff.mp accessed).2
  refine leads_iff.mpr ⟨?_, holdsFolder⟩
  rw [reachFolder] at reached
  cases walked : disk.walk true left home (location.map .enter) with
  | error cause => simp [walked] at reached
  | ok there =>
      simp only [walked] at reached
      cases kind : disk.look there with
      | none => simp [kind] at reached
      | some found => cases found <;> simp_all

/-- The last step of a route below the base is taken in a folder within. -/
theorem locate_below
    (anchored : disk.Anchored base home folder)
    {above : Location}
    {name : Name}
    (plain : ∀ other ∈ above ++ [name], other.IsPlain) :
    disk.locate (base.below (above ++ [name])) =
      match folder.access above with
      | .ok _ => .ok (home ++ above, .enter name)
      | .error cause => .error cause := by
  have legible := Route.holdsZero_below anchored.legible plain
  obtain ⟨left, goesOn⟩ := anchored.leads.walk_append
  have reached := reachFolder_enter anchored.inside anchored.linkFree left above
  have lastStep : (base.below (above ++ [name])).steps.getLast? = some (.enter name) := by
    simp [Route.below]
  have otherSteps : (base.below (above ++ [name])).steps.dropLast =
      base.steps ++ above.map .enter := by
    simp [Route.below]
  have starts : disk.start (base.below (above ++ [name])) = disk.start base := rfl
  simp only [locate, legible, Bool.false_eq_true, if_false, lastStep, otherSteps, starts, goesOn]
  rw [reachFolder] at reached
  cases walked : disk.walk true left home (above.map .enter) with
  | error cause =>
      simp only [walked] at reached ⊢
      cases accessed : folder.access above with
      | ok inside => simp [accessed] at reached
      | error other => simpa [accessed] using reached
  | ok there =>
      simp only [walked] at reached ⊢
      cases kind : disk.look there with
      | none => cases accessed : folder.access above <;> simp_all
      | some found =>
          cases found <;> cases accessed : folder.access above <;> simp_all

/-- A route below the base is resolved inside the folder. -/
theorem resolve_below
    (anchored : disk.Anchored base home folder)
    {above : Location}
    {name : Name}
    {inside : Folder}
    (reaches : folder.Reaches above name inside) :
    disk.resolve (base.below (above ++ [name])) = .ok (home ++ (above ++ [name])) := by
  have legible := Route.holdsZero_below anchored.legible reaches.plain
  obtain ⟨left, goesOn⟩ := (anchored.leads_below reaches.accessed).walk_append
  have somewhere : (base.below (above ++ [name])).isNowhere = false := by
    simp [Route.isNowhere, Route.below]
  have allSteps : (base.below (above ++ [name])).allSteps =
      (base.below above).steps ++ [.enter name] := by
    simp [Route.allSteps, Route.below]
  have starts : disk.start (base.below (above ++ [name])) = disk.start base := rfl
  have holdsFolder : disk.look (home ++ above) = some .folder := by
    rw [anchored.look_append]
    exact Folder.look_eq_folder_of_folderAt? reaches.leads
  simp only [resolve, legible, somewhere, Bool.false_eq_true, if_false, allSteps, starts, goesOn,
    walk_cons, holdsFolder, Nat.not_lt.mpr reaches.fits, List.append_assoc]
  have noLink := anchored.linkFree (above ++ [name])
  rw [← anchored.look_append] at noLink
  cases kind : disk.look (home ++ (above ++ [name])) with
  | none => simp
  | some found =>
      cases found with
      | folder => simp [walk_nil]
      | leaf content =>
          cases content with
          | file file => simp [walk_nil]
          | link target => exact absurd kind (noLink target)

/-- A route to a folder within is resolved to that folder. -/
theorem resolve_folder
    (anchored : disk.Anchored base home folder)
    {location : Location}
    (plain : ∀ name ∈ location, name.IsPlain)
    (somewhere : (base.below location).isNowhere = false)
    {inside : Folder}
    (accessed : folder.access location = .ok inside) :
    disk.resolve (base.below location) = .ok (home ++ location) := by
  have legible := Route.holdsZero_below anchored.legible plain
  have starts : disk.start (base.below location) = disk.start base := rfl
  have allSteps : (base.below location).allSteps = (base.below location).steps := by
    simp [Route.allSteps, Route.below]
  simp only [resolve, legible, somewhere, Bool.false_eq_true, if_false, allSteps, starts]
  exact (anchored.leads_below accessed).walk_eq

/-- A disk with other temporary files is anchored as before. -/
theorem withStaged
    (anchored : disk.Anchored base home folder)
    (staged : List StagedFile) :
    ({ disk with staged := staged } : Disk).Anchored base home folder where
  legible := anchored.legible
  leads := anchored.leads.kept (fun _ => id) (fun _ _ => id)
  inside := anchored.inside
  linkFree := anchored.linkFree

end Anchored

end Disk

end NotePublisher
