import NotePublisher.Proofs.Disk.Operations
import NotePublisher.Proofs.Disk.Treading

namespace NotePublisher

/-!
# What operations do to any disk

What each operation of the file system does where links may be anywhere. An
operation either leaves the tree as it is or changes what is at one place, the
one at which its route is located (`Disk.Exchanges`). A route that goes on by
names from a folder is located below that folder, unless a link stands on the
way (`Disk.locate_below_cases`).
-/

/-- It is further down than another location. -/
def Location.IsBelow (home place : Location) : Prop :=
  ∃ below, below ≠ [] ∧ place = home ++ below

namespace Disk

/-- What is at the place of a route's last name is replaced, and nothing else in the tree. -/
structure Exchanges
    (route : Route)
    (above : Location)
    (name : Name)
    (kind : Option Kind)
    (old new : Disk) : Prop where
  located : old.locate route = .ok (above, .enter name)
  fits : name.size ≤ maximalNameSize
  replaced : Folder.Replaced (above ++ [name]) kind old.top new.top
  workingFolder : new.workingFolder = old.workingFolder

/-- Where something is put in the place of nothing, all that was there still is. -/
theorem Exchanges.look_of_look
    {route : Route}
    {above : Location}
    {name : Name}
    {kind : Option Kind}
    {old new : Disk}
    (exchanges : Exchanges route above name kind old new)
    (missing : old.look (above ++ [name]) = none)
    (place : Location)
    (was : Kind)
    (found : old.look place = some was) :
    new.look place = some was := by
  refine (exchanges.replaced.look_of_ne ?_).trans found
  rintro rfl
  cases missing.symm.trans found

/-- The last step of a route is taken in a folder. -/
theorem look_of_locate
    {disk : Disk}
    {route : Route}
    {above : Location}
    {name : Name}
    (located : disk.locate route = .ok (above, .enter name)) :
    disk.look above = some .folder := by
  rw [locate] at located
  split at located
  · cases located
  · split at located
    · split at located <;> cases located
    · split at located
      · cases located
      · split at located
        · cases located
        · cases located
        · cases located
          assumption

/-- The last step of a route is taken where the steps before it lead. -/
theorem locate_eq_enter_iff
    {disk : Disk}
    {route : Route}
    {above : Location}
    {name : Name} :
    disk.locate route = .ok (above, .enter name) ↔
      route.holdsZero = false ∧ ∃ steps, route.steps = steps ++ [.enter name] ∧
        disk.Leads maximalLinks (disk.start route) steps above := by
  constructor
  · intro located
    have holdsFolder := look_of_locate located
    rw [locate] at located
    by_cases zero : route.holdsZero
    · simp [zero] at located
    rw [if_neg zero] at located
    cases lastStep : route.steps.getLast? with
    | none =>
        simp only [lastStep] at located
        split at located <;> cases located
    | some last =>
        obtain ⟨steps, shape⟩ := List.getLast?_eq_some_iff.mp lastStep
        simp only [lastStep] at located
        simp only [shape, List.dropLast_concat] at located
        cases walked : disk.walk true maximalLinks (disk.start route) steps with
        | error cause => simp [walked] at located
        | ok folder =>
            have same : folder = above ∧ last = .enter name := by
              rw [walked] at located
              cases kind : disk.look folder with
              | none => simp [kind] at located
              | some found => cases found <;> simp_all
            obtain ⟨rfl, rfl⟩ := same
            exact ⟨by simpa using zero, steps, shape, leads_iff.mpr ⟨walked, holdsFolder⟩⟩
  · rintro ⟨legible, steps, shape, leads⟩
    have lastStep : route.steps.getLast? = some (.enter name) := by
      rw [shape, List.getLast?_concat]
    have otherSteps : route.steps.dropLast = steps := by
      rw [shape, List.dropLast_concat]
    simp [locate, legible, lastStep, otherSteps, leads.walk_eq, leads.arrives]

/-- The last step of a route is taken in the same folder where nothing was lost. -/
theorem locate_of_kept
    {old new : Disk}
    (workingFolder : new.workingFolder = old.workingFolder)
    (kept : ∀ place kind, old.look place = some kind → new.look place = some kind)
    {route : Route}
    {above : Location}
    {name : Name}
    (located : old.locate route = .ok (above, .enter name)) :
    new.locate route = .ok (above, .enter name) := by
  obtain ⟨legible, steps, shape, leads⟩ := locate_eq_enter_iff.mp located
  have starts : new.start route = old.start route := by rw [start, start, workingFolder]
  refine locate_eq_enter_iff.mpr ⟨legible, steps, shape, ?_⟩
  rw [starts]
  exact leads.kept (fun _ => kept _ _) fun _ _ => kept _ _

section Cases

variable (route : Route) (disk : Disk)

/-- Making a folder fails and changes nothing, or puts a folder where nothing was. -/
theorem makeFolder_cases :
    (∃ cause, makeFolder route disk = .error cause disk) ∨
      ∃ above name changed, makeFolder route disk = .ok () changed ∧
        Exchanges route above name (some .folder) disk changed ∧
        disk.look (above ++ [name]) = none ∧ changed.staged = disk.staged := by
  rw [makeFolder]
  rcases located : disk.locate route with cause | ⟨above, _ | _ | name⟩
  · exact .inl ⟨cause, rfl⟩
  · exact .inl ⟨_, rfl⟩
  · exact .inl ⟨_, rfl⟩
  · simp only
    by_cases long : maximalNameSize < name.size
    · exact .inl ⟨_, if_pos long⟩
    rw [if_neg long]
    rcases found : disk.look (above ++ [name]) with _ | kind
    · obtain ⟨inside, leads⟩ := Folder.exists_folderAt?_of_look (look_of_locate located)
      refine .inr ⟨above, name, _, rfl, ⟨located, Nat.not_lt.mp long, ?_, rfl⟩, found, rfl⟩
      exact Folder.replaced_putFolder leads found
    · exact .inl ⟨_, rfl⟩

/-- Removing a file fails and changes nothing, or takes a file or link away. -/
theorem removeFile_cases :
    (∃ cause, removeFile route disk = .error cause disk) ∨
      ∃ above name changed content, removeFile route disk = .ok () changed ∧
        Exchanges route above name none disk changed ∧
        disk.look (above ++ [name]) = some (.leaf content) ∧ changed.staged = disk.staged := by
  rw [removeFile]
  rcases located : disk.locate route with cause | ⟨above, _ | _ | name⟩
  · exact .inl ⟨cause, rfl⟩
  · exact .inl ⟨_, rfl⟩
  · exact .inl ⟨_, rfl⟩
  · simp only
    by_cases long : maximalNameSize < name.size
    · exact .inl ⟨_, if_pos long⟩
    rw [if_neg long]
    rcases found : disk.look (above ++ [name]) with _ | content | _
    · exact .inl ⟨_, rfl⟩
    · simp only
      by_cases folderOnly : route.folderOnly
      · exact .inl ⟨_, if_pos folderOnly⟩
      rw [if_neg folderOnly]
      obtain ⟨inside, leads⟩ := Folder.exists_folderAt?_of_look (look_of_locate located)
      refine .inr ⟨above, name, _, content, rfl, ⟨located, Nat.not_lt.mp long, ?_, rfl⟩,
        found, rfl⟩
      exact Folder.replaced_eraseLeaf leads found
    · exact .inl ⟨_, rfl⟩

/-- Removing a folder fails and changes nothing, or takes an empty folder away. -/
theorem removeFolder_cases :
    (∃ cause, removeFolder route disk = .error cause disk) ∨
      ∃ above name changed, removeFolder route disk = .ok () changed ∧
        Exchanges route above name none disk changed ∧
        disk.top.folderAt? (above ++ [name]) = some .empty ∧ changed.staged = disk.staged := by
  rw [removeFolder]
  rcases located : disk.locate route with cause | ⟨above, _ | _ | name⟩
  · exact .inl ⟨cause, rfl⟩
  · exact .inl ⟨_, rfl⟩
  · exact .inl ⟨_, rfl⟩
  · simp only
    by_cases long : maximalNameSize < name.size
    · exact .inl ⟨_, if_pos long⟩
    rw [if_neg long]
    rcases found : disk.top.folderAt? (above ++ [name]) with _ | inside
    · simp only
      split <;> exact .inl ⟨_, rfl⟩
    · simp only
      by_cases isEmpty : inside.isEmpty
      · rw [if_pos isEmpty]
        have nothing : inside = .empty := by
          cases inside <;> simp_all [Folder.isEmpty]
        subst nothing
        obtain ⟨around, leads⟩ := Folder.exists_folderAt?_of_look (look_of_locate located)
        refine .inr ⟨above, name, _, rfl, ⟨located, Nat.not_lt.mp long, ?_, rfl⟩, found, rfl⟩
        exact Folder.replaced_eraseEmpty leads found
      · exact .inl ⟨_, if_neg isEmpty⟩

/-- Moving a temporary file to its place fails and changes nothing, or puts the file there. -/
theorem commitStaged_cases
    {staged : StagedFile}
    {others : List StagedFile}
    (written : disk.staged = staged :: others)
    (replacement : Replacement) :
    (∃ cause, commitStaged route replacement disk = .error cause disk) ∨
      ∃ above name changed, commitStaged route replacement disk = .ok () changed ∧
        Exchanges route above name (some (.leaf (.file staged.file))) disk changed ∧
        disk.look (above ++ [name]) ≠ some .folder ∧
        (replacement = .never → disk.look (above ++ [name]) = none) ∧
        changed.staged = others := by
  simp only [commitStaged, written]
  rcases located : disk.locate route with cause | ⟨above, _ | _ | name⟩
  · cases cause <;> cases replacement <;> exact .inl ⟨_, rfl⟩
  · cases replacement <;> exact .inl ⟨_, rfl⟩
  · cases replacement <;> exact .inl ⟨_, rfl⟩
  · simp only
    by_cases long : maximalNameSize < name.size
    · exact .inl ⟨_, if_pos long⟩
    rw [if_neg long]
    obtain ⟨inside, leads⟩ := Folder.exists_folderAt?_of_look (look_of_locate located)
    have fits := Nat.not_lt.mp long
    let changed : Disk :=
      { disk.updateFolder above (·.insert name (.leaf (.file staged.file))) with
        staged := others }
    have exchanges (notFolder : disk.look (above ++ [name]) ≠ some .folder) :
        Exchanges route above name (some (.leaf (.file staged.file))) disk changed :=
      ⟨located, fits, Folder.replaced_putLeaf leads notFolder _, rfl⟩
    rcases folderOnly : route.folderOnly with _ | _
    · rcases found : disk.look (above ++ [name]) with _ | content | _
      · refine .inr ⟨above, name, changed, ?_, exchanges (by simp [found]), ?_⟩
        · cases replacement <;> rfl
        · simp [found, changed]
      · cases replacement with
        | never => exact .inl ⟨_, rfl⟩
        | allowed =>
            refine .inr ⟨above, name, changed, rfl, exchanges (by simp [found]), ?_⟩
            simp [found, changed]
      · cases replacement <;> exact .inl ⟨_, rfl⟩
    · rcases disk.look (above ++ [name]) with _ | content | _ <;> cases replacement <;>
        exact .inl ⟨_, rfl⟩

/-- Making a folder unless it is there fails, does nothing, or puts a folder where nothing was. -/
theorem makeFolderUnlessThere_cases :
    (∃ cause, makeFolderUnlessThere route disk = .error cause disk) ∨
      makeFolderUnlessThere route disk = .ok () disk ∨
      ∃ above name changed, makeFolderUnlessThere route disk = .ok () changed ∧
        Exchanges route above name (some .folder) disk changed ∧
        disk.look (above ++ [name]) = none ∧ changed.staged = disk.staged := by
  rcases makeFolder_cases route disk with ⟨cause, refused⟩ | ⟨above, name, changed, made, rest⟩
  · simp only [makeFolderUnlessThere, refused]
    cases cause with
    | alreadyExists =>
        by_cases isThere : disk.isFolder route
        · exact .inr (.inl (if_pos isThere))
        · exact .inl ⟨_, if_neg isThere⟩
    | _ => exact .inl ⟨_, rfl⟩
  · exact .inr (.inr ⟨above, name, changed, by simp only [makeFolderUnlessThere, made], rest⟩)

variable {route disk} {cause : DiskError} {same : Disk}

/-- A route that ends in a slash gives no file its name. -/
theorem folderOnly_of_commitStaged
    {replacement : Replacement}
    (done : commitStaged route replacement disk = .ok () same) :
    route.folderOnly = false := by
  cases folderOnly : route.folderOnly with
  | false => rfl
  | true =>
      exfalso
      simp only [commitStaged, folderOnly, if_true] at done
      repeat' split at done
      all_goals cases done

/-- A file that is not removed leaves the disk as it is. -/
theorem eq_of_removeFile_eq_error
    (refused : removeFile route disk = .error cause same) :
    same = disk := by
  rcases removeFile_cases route disk with ⟨_, kept⟩ | ⟨_, _, _, _, done, -⟩
  · cases refused.symm.trans kept
    rfl
  · cases refused.symm.trans done

/-- A folder that is not removed leaves the disk as it is. -/
theorem eq_of_removeFolder_eq_error
    (refused : removeFolder route disk = .error cause same) :
    same = disk := by
  rcases removeFolder_cases route disk with ⟨_, kept⟩ | ⟨_, _, _, done, -⟩
  · cases refused.symm.trans kept
    rfl
  · cases refused.symm.trans done

end Cases

/-- A link stands on the way down from a folder to a location. -/
def Detours
    (disk : Disk)
    (home location : Location) :
    Prop :=
  ∃ above below target, location = above ++ below ∧ below ≠ [] ∧
    disk.look (home ++ above) = some (.leaf (.link target))

theorem Detours.append
    {disk : Disk}
    {home location : Location}
    (detours : disk.Detours home location)
    (more : Location) :
    disk.Detours home (location ++ more) := by
  obtain ⟨above, below, target, rfl, below_ne_nil, linked⟩ := detours
  exact ⟨above, below ++ more, target, List.append_assoc .., by simp [below_ne_nil], linked⟩

theorem Detours.of_links
    {old new : Disk}
    {home location : Location}
    (detours : new.Detours home location)
    (links : ∀ place target, new.look place = some (.leaf (.link target)) →
      old.look place = some (.leaf (.link target))) :
    old.Detours home location := by
  obtain ⟨above, below, target, shape, below_ne_nil, linked⟩ := detours
  exact ⟨above, below, target, shape, below_ne_nil, links _ _ linked⟩

theorem detours_iff
    {disk : Disk}
    {home location : Location} :
    disk.Detours home location ↔
      ∃ size, size < location.length ∧
        ∃ kind ∈ disk.look (home ++ location.take size), kind.IsLink := by
  constructor
  · rintro ⟨above, below, target, rfl, below_ne_nil, linked⟩
    have shorter := List.length_pos_iff.mpr below_ne_nil
    refine ⟨above.length, by rw [List.length_append]; omega, _, ?_, target, rfl⟩
    rwa [List.take_left]
  · rintro ⟨size, inside, kind, linked, target, rfl⟩
    refine ⟨location.take size, location.drop size, target, by simp, ?_, linked⟩
    simpa using inside

instance
    (disk : Disk)
    (home location : Location) :
    Decidable (disk.Detours home location) :=
  decidable_of_iff _ detours_iff.symm

/-- Names that lead down from a folder lead straight down, or along a link. -/
theorem Leads.straight_or_detours
    {disk : Disk}
    {links : Nat}
    {home there : Location}
    {location : Location}
    (leads : disk.Leads links home (location.map .enter) there)
    (name : Name) :
    there = home ++ location ∨ disk.Detours home (location ++ [name]) := by
  induction location generalizing links home with
  | nil =>
      cases leads
      exact .inl (by simp)
  | cons first rest inductionHypothesis =>
      cases leads with
      | enter _ _ _ onward =>
          rcases inductionHypothesis onward with
            straight | ⟨above, below, target, shape, below_ne_nil, linked⟩
          · exact .inl (straight.trans (List.append_assoc ..))
          · refine .inr ⟨first :: above, below, target, by simp [shape], below_ne_nil, ?_⟩
            rwa [List.append_assoc] at linked
      | follow _ _ linked _ =>
          exact .inr ⟨[first], rest ++ [name], _, rfl, by simp, linked⟩

/-- Names that lead anywhere fit. -/
theorem Leads.fits
    {disk : Disk}
    {links : Nat}
    {home there : Location}
    {location : Location}
    (leads : disk.Leads links home (location.map .enter) there) :
    Location.Fits location := by
  induction location generalizing links home with
  | nil =>
      simp [Location.Fits]
  | cons first rest inductionHypothesis =>
      cases leads with
      | enter _ fits _ onward =>
          exact List.forall_mem_cons.mpr ⟨fits, inductionHypothesis onward⟩
      | follow _ fits _ onward =>
          obtain ⟨left, middle, -, onward⟩ := onward.split
          exact List.forall_mem_cons.mpr ⟨fits, inductionHypothesis onward⟩

/-- One more step, to something that is no link. -/
theorem Leads.treads_enter
    {disk : Disk}
    {links : Nat}
    {here there : Location}
    {steps : List Step}
    (leads : disk.Leads links here steps there)
    {name : Name}
    (fits : name.size ≤ maximalNameSize)
    {kind : Kind}
    (found : disk.look (there ++ [name]) = some kind)
    (noLink : ¬ kind.IsLink) :
    disk.Treads anywhere links here (steps ++ [.enter name]) (there ++ [name]) := by
  refine treads_of_walk ?_ found
  obtain ⟨left, goesOn⟩ := leads.walk_append
  have lastStep : disk.Treads anywhere left there [.enter name] (there ++ [name]) :=
    .enter leads.arrives trivial fits found noLink (.arrive found trivial)
  rw [goesOn, lastStep.walk_eq]

/-- A route leads to what its last name stands for, unless that is a link. -/
theorem resolve_of_located
    {disk : Disk}
    {route : Route}
    {above : Location}
    {name : Name}
    (located : disk.locate route = .ok (above, .enter name))
    (folderOnly : route.folderOnly = false)
    (fits : name.size ≤ maximalNameSize)
    {kind : Kind}
    (found : disk.look (above ++ [name]) = some kind)
    (noLink : ¬ kind.IsLink) :
    disk.resolve route = .ok (above ++ [name]) := by
  obtain ⟨legible, steps, shape, leads⟩ := locate_eq_enter_iff.mp located
  have somewhere : route.isNowhere = false := by simp [Route.isNowhere, shape]
  have allSteps : route.allSteps = steps ++ [.enter name] := by
    rw [Route.allSteps, folderOnly, ← shape]
    rfl
  rw [resolve, legible, somewhere, allSteps]
  exact (leads.treads_enter fits found noLink).walk_eq

/-- Names lead straight down to a folder. -/
theorem leads_straight
    {disk : Disk}
    {home location : Location}
    (fits : Location.Fits location)
    (holdsFolder : disk.look (home ++ location) = some .folder)
    (links : Nat) :
    disk.Leads links home (location.map .enter) (home ++ location) := by
  induction location generalizing home with
  | nil =>
      rw [List.append_nil] at holdsFolder ⊢
      exact .arrive holdsFolder
  | cons first rest inductionHypothesis =>
      obtain ⟨fitsHere, fitsBelow⟩ := List.forall_mem_cons.mp fits
      have holdsHere : disk.look home = some .folder :=
        Folder.look_eq_folder_of_look_append (List.cons_ne_nil first rest) holdsFolder
      rw [← List.singleton_append, ← List.append_assoc] at holdsFolder ⊢
      have holdsNext : disk.look (home ++ [first]) = some .folder := by
        cases rest with
        | nil => simpa using holdsFolder
        | cons second others =>
            exact Folder.look_eq_folder_of_look_append (List.cons_ne_nil second others) holdsFolder
      exact .enter holdsHere fitsHere holdsNext (inductionHypothesis fitsBelow holdsFolder)

section Below

variable {disk : Disk} {base : Route} {home : Location}

/-- The last step of a route below a base is taken where the other steps lead. -/
theorem leads_of_locate_below
    {location above : Location}
    {name other : Name}
    (located : disk.locate (base.below (location ++ [name])) = .ok (above, .enter other)) :
    other = name ∧
      disk.Leads maximalLinks (disk.start base) (base.steps ++ location.map .enter) above := by
  obtain ⟨-, steps, shape, leads⟩ := locate_eq_enter_iff.mp located
  have whole : (base.steps ++ location.map .enter) ++ [.enter name] =
      steps ++ [Step.enter other] := by
    rw [← shape]
    simp [Route.below]
  obtain ⟨rfl, sameName⟩ := List.append_inj' whole rfl
  cases sameName
  exact ⟨rfl, leads⟩

/-- Before its last step a route below a base has led to where the base leads, and on from there. -/
theorem exists_leads_of_locate_below
    {location above : Location}
    {name other : Name}
    (located : disk.locate (base.below (location ++ [name])) = .ok (above, .enter other)) :
    other = name ∧ ∃ left middle, disk.Leads maximalLinks (disk.start base) base.steps middle ∧
      disk.Leads left middle (location.map .enter) above := by
  obtain ⟨same, leads⟩ := leads_of_locate_below located
  exact ⟨same, leads.split⟩

variable (leads : disk.Leads maximalLinks (disk.start base) base.steps home)

include leads

/-- A name below a route is located in the folder that the names before it lead to. -/
theorem locate_below_cases
    {location above : Location}
    {name other : Name}
    (located : disk.locate (base.below (location ++ [name])) = .ok (above, .enter other)) :
    other = name ∧ ∃ left, disk.Leads left home (location.map .enter) above := by
  obtain ⟨same, left, middle, toMiddle, onward⟩ := exists_leads_of_locate_below located
  cases toMiddle.walk_eq.symm.trans leads.walk_eq
  exact ⟨same, left, onward⟩

/-- What is straight below the base is located there. -/
theorem locate_below_of_look
    {location : Location}
    {name : Name}
    (legible : (base.below (location ++ [name])).holdsZero = false)
    (fits : Location.Fits location)
    (holdsFolder : disk.look (home ++ location) = some .folder) :
    disk.locate (base.below (location ++ [name])) = .ok (home ++ location, .enter name) := by
  refine locate_eq_enter_iff.mpr ⟨legible, base.steps ++ location.map .enter, ?_, ?_⟩
  · simp [Route.below]
  · exact leads.trans (leads_straight fits holdsFolder)

/-- What is straight below the base is what the route there leads to, unless it is a link. -/
theorem resolve_below_of_look
    {location : Location}
    {name : Name}
    (legible : (base.below (location ++ [name])).holdsZero = false)
    (fits : Location.Fits (location ++ [name]))
    {kind : Kind}
    (found : disk.look (home ++ (location ++ [name])) = some kind)
    (noLink : ¬ kind.IsLink) :
    disk.resolve (base.below (location ++ [name])) = .ok (home ++ (location ++ [name])) := by
  rw [← List.append_assoc] at found ⊢
  have holdsFolder : disk.look (home ++ location) = some .folder :=
    Folder.look_eq_folder_of_look_append (List.cons_ne_nil name []) found
  exact resolve_of_located
    (locate_below_of_look leads legible (fun part member => fits part (by simp [member]))
      holdsFolder)
    rfl (fits name (by simp)) found noLink

/-- Without a link on the way down, what is exchanged below the base is straight below it. -/
theorem Exchanges.straight
    {location above : Location}
    {name : Name}
    {kind : Option Kind}
    {changed : Disk}
    (exchanges : Exchanges (base.below location) above name kind disk changed)
    (location_ne_nil : location ≠ [])
    (noLink : ¬ disk.Detours home location) :
    above ++ [name] = home ++ location ∧ Location.Fits location := by
  obtain ⟨outer, last, rfl⟩ : ∃ outer last, location = outer ++ [last] :=
    ⟨_, _, (List.dropLast_append_getLast location_ne_nil).symm⟩
  obtain ⟨rfl, left, onward⟩ := locate_below_cases leads exchanges.located
  rcases onward.straight_or_detours name with rfl | detours
  · exact ⟨List.append_assoc .., onward.fits.concat exchanges.fits⟩
  · exact absurd detours noLink

end Below

section Reading

variable {disk : Disk} {base : Route} {location : Location}

/-- What is read is a text that the steps tread to. -/
theorem exists_readText_below_iff
    (location_ne_nil : location ≠ []) :
    (∃ text, disk.readText (base.below location) = .ok text) ↔
      (base.below location).holdsZero = false ∧
        ∃ place kind, disk.Treads anywhere maximalLinks (disk.start base)
            (base.below location).steps place ∧
          disk.look place = some kind ∧ kind.IsText := by
  have somewhere : (base.below location).isNowhere = false := by
    simp [Route.isNowhere, Route.below, location_ne_nil]
  have allSteps : (base.below location).allSteps = (base.below location).steps := by
    simp [Route.allSteps, Route.below]
  have starts : disk.start (base.below location) = disk.start base := rfl
  constructor
  · rintro ⟨text, read⟩
    by_cases zero : (base.below location).holdsZero
    · simp [readText, readFile, inspect, resolve, zero] at read
    have legible : (base.below location).holdsZero = false := by simpa using zero
    refine ⟨legible, ?_⟩
    rw [readText, readFile, inspect, resolve] at read
    simp only [legible, somewhere, allSteps, starts, Bool.false_eq_true, if_false] at read
    cases walked : disk.walk true maximalLinks (disk.start base) (base.below location).steps with
    | error cause => simp [walked] at read
    | ok place =>
        rcases found : disk.look place with _ | (file | target) | _
        · simp [walked, found] at read
        · cases decoded : Utf8.decode? file.content with
          | none => simp [walked, found, decoded] at read
          | some text =>
              exact ⟨place, _, treads_of_walk walked found, found, file, text, rfl, decoded⟩
        · simp [walked, found] at read
        · simp [walked, found] at read
  · rintro ⟨legible, place, kind, treads, found, file, text, rfl, decoded⟩
    refine ⟨text, ?_⟩
    simp [readText, readFile, inspect, resolve, legible, somewhere, allSteps, starts,
      treads.walk_eq, found, decoded]

/-- A text can be read by the way to its folder and its name. -/
theorem exists_readText_of_leads
    {above around : Location}
    {name : Name}
    (legible : (base.below (above ++ [name])).holdsZero = false)
    (leads : disk.Leads maximalLinks (disk.start base) (base.steps ++ above.map .enter) around)
    (fits : name.size ≤ maximalNameSize)
    {kind : Kind}
    (found : disk.look (around ++ [name]) = some kind)
    (isText : kind.IsText) :
    ∃ text, disk.readText (base.below (above ++ [name])) = .ok text := by
  have steps : (base.below (above ++ [name])).steps =
      (base.steps ++ above.map .enter) ++ [.enter name] := by
    simp [Route.below]
  exact (exists_readText_below_iff (by simp)).mpr
    ⟨legible, _, kind, steps ▸ leads.treads_enter fits found isText.not_isLink, found, isText⟩

/-- What is below a base can be read only where the base leads to a folder. -/
theorem exists_leads_of_readText_below
    (location_ne_nil : location ≠ [])
    (reads : ∃ text, disk.readText (base.below location) = .ok text) :
    ∃ there, disk.Leads maximalLinks (disk.start base) base.steps there := by
  obtain ⟨-, place, kind, treads, -, -⟩ := (exists_readText_below_iff location_ne_nil).mp reads
  have steps : (base.below location).steps = base.steps ++ location.map .enter := by
    simp [Route.below]
  rw [steps] at treads
  obtain ⟨left, middle, toMiddle, onward⟩ := treads.split
  obtain ⟨name, rest, rfl⟩ := List.exists_cons_of_ne_nil location_ne_nil
  exact ⟨middle, toMiddle.leads onward.starts⟩

/-- A text can be read behind a way that was kept, whether the text is new or not. -/
theorem Keeps.exists_readText_of_leads
    {allowed : Location → Prop}
    {old new : Disk}
    (keeps : Keeps allowed old new)
    {above around : Location}
    {name : Name}
    (legible : (base.below (above ++ [name])).holdsZero = false)
    (treads : old.Treads allowed maximalLinks (old.start base) (base.steps ++ above.map .enter)
      around)
    (arrives : old.look around = some .folder)
    (fits : name.size ≤ maximalNameSize)
    {kind : Kind}
    (found : new.look (around ++ [name]) = some kind)
    (isText : kind.IsText) :
    ∃ text, new.readText (base.below (above ++ [name])) = .ok text := by
  obtain ⟨treadsThen, arrivesThen⟩ := keeps.treads_folder treads arrives
  have starts : new.start base = old.start base := by
    simp [start, keeps.workingFolder]
  rw [← starts] at treadsThen
  exact Disk.exists_readText_of_leads legible (treadsThen.leads arrivesThen) fits found isText

/--
What could be read can still be read, if all of its trail was kept and texts
stand where the trail ends at a link.
-/
theorem Keeps.exists_readText_of_trail
    {allowed : Location → Prop}
    {old new : Disk}
    (keeps : Keeps allowed old new)
    (location_ne_nil : location ≠ [])
    {ends : Location → Bool}
    (standing : ∀ place, allowed place → ends place = true →
      ∃ kind, new.look place = some kind ∧ kind.IsText)
    (onTrail : ∀ place ∈ old.trailOf ends (base.below location), allowed place)
    (reads : ∃ text, old.readText (base.below location) = .ok text) :
    ∃ text, new.readText (base.below location) = .ok text := by
  obtain ⟨legible, place, kind, treads, found, isText⟩ :=
    (exists_readText_below_iff location_ne_nil).mp reads
  have allSteps : (base.below location).allSteps = (base.below location).steps := by
    simp [Route.allSteps, Route.below]
  have startsBelow : old.start (base.below location) = old.start base := rfl
  have starts : new.start base = old.start base := by
    simp [start, keeps.workingFolder]
  rw [trailOf, allSteps, startsBelow] at onTrail
  obtain ⟨other, kindThen, treadsThen, foundThen, isTextThen⟩ :=
    keeps.treads_text standing onTrail treads found isText
  rw [← starts] at treadsThen
  exact (exists_readText_below_iff location_ne_nil).mpr
    ⟨legible, other, kindThen, treadsThen, foundThen, isTextThen⟩

/-- A link that a text is read through does not lead to a folder. -/
theorem look_ne_folder_of_readText
    {home above there : Location}
    (leads : disk.Leads maximalLinks (disk.start base) base.steps home)
    (fits : Location.Fits above)
    {name : Name}
    {target : Text}
    (linked : disk.look (home ++ above ++ [name]) = some (.leaf (.link target)))
    (reads : ∃ text, disk.readText (base.below (above ++ [name])) = .ok text)
    {allowed : Location → Prop}
    {links : Nat}
    (treads : disk.Treads allowed links (startOfTarget (home ++ above) target)
      (Route.ofText target).allSteps there) :
    disk.look there ≠ some .folder := by
  obtain ⟨-, place, kind, toText, found, isText⟩ :=
    (exists_readText_below_iff (by simp)).mp reads
  have steps : (base.below (above ++ [name])).steps =
      (base.steps ++ above.map .enter) ++ [.enter name] := by
    simp [Route.below]
  rw [steps] at toText
  obtain ⟨left, middle, toMiddle, lastStep⟩ := toText.split
  have holdsFolder : disk.look (home ++ above) = some .folder :=
    Folder.look_eq_folder_of_look_append (List.cons_ne_nil name []) linked
  cases toMiddle.unique (leads.trans (leads_straight fits holdsFolder)).treads
  cases lastStep with
  | enter _ _ _ entered noLink _ =>
      cases linked.symm.trans entered
      exact absurd ⟨target, rfl⟩ noLink
  | follow _ _ _ linkedAgain _ onward =>
      cases linked.symm.trans linkedAgain
      rw [List.append_nil] at onward
      cases treads.unique onward
      intro isFolder
      cases found.symm.trans isFolder
      obtain ⟨file, text, isFile, -⟩ := isText
      cases isFile

end Reading

end Disk

end NotePublisher
