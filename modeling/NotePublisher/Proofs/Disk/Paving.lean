import NotePublisher.Proofs.Disk.Effects

namespace NotePublisher

/-!
# Folders made along a route

Making the folders of a route, whether that is refused in the end or not, only
puts folders where nothing was, at places that the route comes by afterwards
(`Disk.makeFolders_paves`). If the route goes on by names from a folder that is
there, these places are below that folder or past a link on the way down
(`Disk.Paved.widened`).
-/

namespace Disk

/-- Folders were made where nothing was, at allowed places. -/
structure Extended
    (allowed : Location → Prop)
    (old new : Disk) : Prop where
  workingFolder : new.workingFolder = old.workingFolder
  staged : new.staged = old.staged
  places : ∀ place, new.look place = old.look place ∨
    old.look place = none ∧ new.look place = some .folder ∧ allowed place

namespace Extended

variable {allowed : Location → Prop} {old new : Disk}

theorem refl
    (allowed : Location → Prop)
    (disk : Disk) :
    Extended allowed disk disk where
  workingFolder := rfl
  staged := rfl
  places _ := .inl rfl

theorem mono
    {wider : Location → Prop}
    (extended : Extended allowed old new)
    (isWider : ∀ place, old.look place = none → allowed place → wider place) :
    Extended wider old new where
  workingFolder := extended.workingFolder
  staged := extended.staged
  places place := (extended.places place).imp_right fun ⟨missing, made, isAllowed⟩ =>
    ⟨missing, made, isWider place missing isAllowed⟩

/-- New folders take nothing away. -/
theorem look_of_look
    (extended : Extended allowed old new)
    {place : Location}
    {kind : Kind}
    (found : old.look place = some kind) :
    new.look place = some kind := by
  rcases extended.places place with same | ⟨missing, -, -⟩
  · exact same.trans found
  · simp [found] at missing

/-- New folders bring no files or links. -/
theorem look_leaf
    (extended : Extended allowed old new)
    {place : Location}
    {content : Leaf}
    (found : new.look place = some (.leaf content)) :
    old.look place = some (.leaf content) := by
  rcases extended.places place with same | ⟨-, made, -⟩
  · exact same ▸ found
  · simp [found] at made

theorem trans
    {last : Disk}
    (left : Extended allowed old new)
    (right : Extended allowed new last) :
    Extended allowed old last where
  workingFolder := right.workingFolder.trans left.workingFolder
  staged := right.staged.trans left.staged
  places place := by
    rcases left.places place with sameLeft | ⟨missing, made, isAllowed⟩
    · rw [← sameLeft]
      exact right.places place
    · exact .inr ⟨missing, right.look_of_look made, isAllowed⟩

theorem start_eq
    (extended : Extended allowed old new)
    (route : Route) :
    new.start route = old.start route := by
  rw [start, start, extended.workingFolder]

theorem leads
    (extended : Extended allowed old new)
    {links : Nat}
    {here there : Location}
    {steps : List Step}
    (leads : old.Leads links here steps there) :
    new.Leads links here steps there :=
  leads.kept (fun _ => extended.look_of_look) fun _ _ => extended.look_of_look

/-- Links on the way down are not new. -/
theorem detours
    (extended : Extended allowed old new)
    {home location : Location}
    (detours : new.Detours home location) :
    old.Detours home location :=
  detours.of_links fun _ _ => extended.look_leaf

end Extended

/-- The steps of a route come by a folder at a place. -/
def ComesBy
    (disk : Disk)
    (route : Route)
    (place : Location) :
    Prop :=
  ∃ before after, route.steps = before ++ after ∧
    disk.Leads maximalLinks (disk.start route) before place

/-- A route comes by the same places where nothing was lost. -/
theorem ComesBy.of_kept
    {old new : Disk}
    {route : Route}
    {place : Location}
    (comesBy : old.ComesBy route place)
    (workingFolder : new.workingFolder = old.workingFolder)
    (kept : ∀ place kind, old.look place = some kind → new.look place = some kind) :
    new.ComesBy route place := by
  obtain ⟨before, after, shape, leads⟩ := comesBy
  have starts : new.start route = old.start route := by rw [start, start, workingFolder]
  exact ⟨before, after, shape, starts ▸ leads.kept (fun _ => kept _ _) fun _ _ => kept _ _⟩

/-- Only the steps that move decide what a route comes by. -/
theorem ComesBy.of_same_moves
    {disk : Disk}
    {route other : Route}
    {place : Location}
    (comesBy : disk.ComesBy other place)
    (absolute : other.absolute = route.absolute)
    (steps : other.steps = route.movingSteps) :
    disk.ComesBy route place := by
  obtain ⟨before, after, shape, leads⟩ := comesBy
  rw [steps] at shape
  obtain ⟨first, second, whole, rfl, -⟩ := List.filter_eq_append_iff.mp shape
  refine ⟨first, second, whole, ?_⟩
  rw [show disk.start route = disk.start other by simp [start, absolute]]
  exact leads.of_same_moves (by simp [List.filter_filter])

/-- Folders were made where nothing was, at places that a route then comes by. -/
abbrev Paved
    (route : Route)
    (old new : Disk) :
    Prop :=
  Extended (new.ComesBy route) old new

namespace Paved

variable {route : Route} {old new : Disk}

/-- What a route comes by it still comes by when further folders are made. -/
theorem trans
    {last : Disk}
    (left : Paved route old new)
    (right : Paved route new last) :
    Paved route old last := by
  refine Extended.trans (left.mono fun place _ comesBy => ?_) right
  exact comesBy.of_kept right.workingFolder fun _ _ => right.look_of_look

/-- A route comes by what its first part comes by. -/
theorem append
    {absolute : Bool}
    {steps : List Step}
    (paved : Paved ⟨absolute, steps, false⟩ old new)
    (more : List Step) :
    Paved ⟨absolute, steps ++ more, false⟩ old new := by
  refine paved.mono fun place _ ⟨before, after, shape, leads⟩ =>
    ⟨before, after ++ more, ?_, leads⟩
  rw [← List.append_assoc, ← shape]

end Paved

/-- A folder that was made is where its route leads. -/
theorem Exchanges.paved
    {route : Route}
    {above : Location}
    {name : Name}
    {disk changed : Disk}
    (exchanges : Exchanges route above name (some .folder) disk changed)
    (missing : disk.look (above ++ [name]) = none)
    (staged : changed.staged = disk.staged) :
    Paved route disk changed := by
  have made : changed.look (above ++ [name]) = some .folder := exchanges.replaced.look_place
  have extended : Extended (· = above ++ [name]) disk changed := by
    refine ⟨exchanges.workingFolder, staged, fun place => ?_⟩
    by_cases atPlace : place = above ++ [name]
    · subst atPlace
      exact .inr ⟨missing, made, rfl⟩
    · exact .inl (exchanges.replaced.look_of_ne atPlace)
  refine extended.mono fun place _ atPlace => ?_
  subst atPlace
  obtain ⟨-, steps, shape, leads⟩ := locate_eq_enter_iff.mp exchanges.located
  have arrived := extended.leads leads
  refine ⟨route.steps, [], (List.append_nil _).symm, ?_⟩
  rw [shape, extended.start_eq]
  exact arrived.trans fun _ => .enter arrived.arrives exchanges.fits made (.arrive made)

/-- A folder is made on its route or not at all. -/
private theorem makeFolderUnlessThere_paves
    (route : Route)
    (disk : Disk) :
    (∃ cause, makeFolderUnlessThere route disk = .error cause disk) ∨
      ∃ changed, makeFolderUnlessThere route disk = .ok () changed ∧ Paved route disk changed := by
  rcases makeFolderUnlessThere_cases route disk with
    refused | done | ⟨above, name, changed, made, exchanges, missing, staged⟩
  · exact .inl refused
  · exact .inr ⟨disk, done, .refl ..⟩
  · exact .inr ⟨changed, made, exchanges.paved missing staged⟩

/--
Making folders from the last step to the first adds folders on the way and
nothing else, also if it fails.
-/
theorem makeFoldersAlong_paves
    (absolute : Bool)
    (steps : List Step)
    (disk : Disk) :
    ∃ changed, Paved ⟨absolute, steps.reverse, false⟩ disk changed ∧
      (makeFoldersAlong absolute steps disk = .ok () changed ∨
        ∃ cause, makeFoldersAlong absolute steps disk = .error cause changed) := by
  induction steps with
  | nil =>
      exact ⟨disk, .refl .., .inl rfl⟩
  | cons step above inductionHypothesis =>
      let route : Route := ⟨absolute, (step :: above).reverse, false⟩
      rcases makeFolderUnlessThere_paves route disk with ⟨cause, refused⟩ | ⟨changed, done, paved⟩
      · by_cases missing : cause = .notFound
        · -- The folders above are made first.
          subst missing
          rw [makeFoldersAlong_of_notFound rfl refused]
          obtain ⟨changed, paved, done | ⟨cause, failed⟩⟩ := inductionHypothesis
          · have pavedFurther := paved.append [step]
            rw [← List.reverse_cons] at pavedFurther
            simp only [done]
            rcases makeFolderUnlessThere_paves route changed with
              ⟨cause, refused⟩ | ⟨last, made, pavedLast⟩
            · exact ⟨changed, pavedFurther, .inr ⟨cause, refused⟩⟩
            · exact ⟨last, pavedFurther.trans pavedLast, .inl made⟩
          · simp only [failed]
            refine ⟨changed, ?_, .inr ⟨cause, rfl⟩⟩
            rw [List.reverse_cons]
            exact paved.append [step]
        · exact ⟨disk, .refl .., .inr ⟨cause, makeFoldersAlong_of_refused rfl missing refused⟩⟩
      · exact ⟨changed, paved, .inl (makeFoldersAlong_of_done rfl done)⟩

/-- Folders made for a route are where nothing was, at places that the route comes by. -/
theorem makeFolders_paves
    (route : Route)
    (disk : Disk) :
    ∃ changed, Paved route disk changed ∧
      (makeFolders route disk = .ok () changed ∨
        ∃ cause, makeFolders route disk = .error cause changed) := by
  obtain ⟨changed, paved, outcome⟩ :=
    makeFoldersAlong_paves route.absolute route.movingSteps.reverse disk
  refine ⟨changed, paved.mono fun place _ comesBy => ?_, outcome⟩
  exact comesBy.of_same_moves rfl (List.reverse_reverse _)

/-- Where a device lets folders be made for the first steps only, a route comes by them too. -/
theorem makeFoldersUnder_paves
    (fault : Option (Nat × DiskError))
    (route : Route)
    (disk : Disk) :
    ∃ changed, Paved route disk changed ∧
      (makeFoldersUnder fault route disk = .ok () changed ∨
        ∃ cause, makeFoldersUnder fault route disk = .error cause changed) := by
  rcases fault with _ | ⟨count, cause⟩
  · exact makeFolders_paves route disk
  obtain ⟨changed, paved, outcome⟩ :=
    makeFolders_paves ⟨route.absolute, route.movingSteps.take count, false⟩ disk
  have onTheWay := paved.append (route.movingSteps.drop count)
  rw [List.take_append_drop] at onTheWay
  refine ⟨changed, onTheWay.mono fun place _ comesBy => comesBy.of_same_moves rfl rfl, ?_⟩
  rcases outcome with done | ⟨error, refused⟩
  · simp only [makeFoldersUnder, done]
    split
    · exact .inl rfl
    · exact .inr ⟨cause, rfl⟩
  · simp only [makeFoldersUnder, refused]
    exact .inr ⟨error, rfl⟩

/-- Folders were made where nothing was, below a folder or past a link on the way down. -/
abbrev Widened
    (home location : Location)
    (old new : Disk) :
    Prop :=
  Extended (fun place => Location.IsBelow home place ∨ old.Detours home location) old new

/-- Folders made for a route below a base are straight below it or past a link. -/
theorem Paved.widened
    {base : Route}
    {home above : Location}
    {old new : Disk}
    (paved : Paved (base.below above) old new)
    (leads : old.Leads maximalLinks (old.start base) base.steps home)
    (name : Name) :
    Widened home (above ++ [name]) old new := by
  refine paved.mono fun place missing ⟨before, after, shape, arrives⟩ => ?_
  have starts : new.start (base.below above) = old.start base := paved.start_eq base
  rw [starts] at arrives
  rcases List.append_eq_append_iff.mp shape with ⟨names, rfl, onNames⟩ | ⟨rest, steps, -⟩
  · obtain ⟨outer, inner, rfl, rfl, -⟩ := List.map_eq_append_iff.mp onNames
    obtain ⟨left, middle, toMiddle, onward⟩ := arrives.split
    cases toMiddle.treads.unique (paved.leads leads).treads
    obtain ⟨next, rest, more⟩ := List.exists_cons_of_ne_nil (List.concat_ne_nil name inner)
    rw [List.append_assoc, more, ← List.singleton_append, ← List.append_assoc]
    rcases onward.straight_or_detours next with rfl | detours
    · refine .inl ⟨outer, ?_, rfl⟩
      rintro rfl
      rw [List.append_nil] at missing
      cases missing.symm.trans leads.arrives
    · exact .inr ((paved.detours detours).append rest)
  · -- A folder that the base itself comes by was there.
    rw [steps] at leads
    obtain ⟨left, middle, toMiddle, -⟩ := leads.split
    cases arrives.treads.unique (paved.leads toMiddle).treads
    cases missing.symm.trans toMiddle.arrives

end Disk

end NotePublisher
