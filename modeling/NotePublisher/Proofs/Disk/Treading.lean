import NotePublisher.Proofs.Disk.Walk

namespace NotePublisher

/-!
# The places that a walk comes by

`Disk.Treads` relates the start of a walk to the file or folder at which it
arrives, where the walk comes by allowed places only. Where two walks along the
same steps arrive does not depend on how many links each may follow
(`Disk.Treads.unique`). `Disk.trail` computes the places that steps can lead
by: what is missing counts as a folder, since it may have become one by the
time the steps are taken (`Disk.treads_of_trail`).

`Disk.Keeps` says of a changed disk that what is readable through allowed
places still is (`Disk.Keeps.treads`).
-/

/-- Whether it is a symbolic link. -/
def Kind.IsLink (kind : Kind) : Prop :=
  ∃ target, kind = .leaf (.link target)

instance : DecidablePred Kind.IsLink
  | .leaf (.link target) => isTrue ⟨target, rfl⟩
  | .leaf (.file _) => isFalse fun ⟨_, isLink⟩ => nomatch isLink
  | .folder => isFalse fun ⟨_, isLink⟩ => nomatch isLink

/-- Whether it is a file that holds a text. -/
def Kind.IsText (kind : Kind) : Prop :=
  ∃ file text, kind = .leaf (.file file) ∧ Utf8.decode? file.content = some text

theorem Kind.IsText.not_isLink
    {kind : Kind}
    (isText : kind.IsText) :
    ¬ kind.IsLink := by
  rintro ⟨target, isLink⟩
  obtain ⟨file, text, isFile, -⟩ := isText
  cases isLink.symm.trans isFile

namespace Disk

/-- Where the target of a link in a folder is read from. -/
def startOfTarget
    (here : Location)
    (target : Text) :
    Location :=
  if (Route.ofText target).absolute then [] else here

/-- The steps lead from one location to another along at most `links` links, by allowed places. -/
inductive Treads (disk : Disk) (allowed : Location → Prop) :
    Nat → Location → List Step → Location → Prop where
  | arrive {links : Nat} {here : Location} {kind : Kind} :
      disk.look here = some kind →
      allowed here →
      Treads disk allowed links here [] here
  | stay {links : Nat} {here there : Location} {rest : List Step} :
      disk.look here = some .folder →
      allowed here →
      Treads disk allowed links here rest there →
      Treads disk allowed links here (.stay :: rest) there
  | up {links : Nat} {here there : Location} {rest : List Step} :
      disk.look here = some .folder →
      allowed here →
      Treads disk allowed links here.dropLast rest there →
      Treads disk allowed links here (.up :: rest) there
  | enter {links : Nat} {here there : Location} {name : Name} {kind : Kind}
      {rest : List Step} :
      disk.look here = some .folder →
      allowed here →
      name.size ≤ maximalNameSize →
      disk.look (here ++ [name]) = some kind →
      ¬ kind.IsLink →
      Treads disk allowed links (here ++ [name]) rest there →
      Treads disk allowed links here (.enter name :: rest) there
  | follow {links : Nat} {here there : Location} {name : Name} {target : Text}
      {rest : List Step} :
      disk.look here = some .folder →
      allowed here →
      name.size ≤ maximalNameSize →
      disk.look (here ++ [name]) = some (.leaf (.link target)) →
      allowed (here ++ [name]) →
      Treads disk allowed links (startOfTarget here target)
        ((Route.ofText target).allSteps ++ rest) there →
      Treads disk allowed (links + 1) here (.enter name :: rest) there

/-- Every place. -/
abbrev anywhere : Location → Prop :=
  fun _ => True

/-- A walk that arrives at something treads there. -/
theorem treads_of_walk
    {disk : Disk}
    {links : Nat}
    {here there : Location}
    {steps : List Step}
    {kind : Kind}
    (walked : disk.walk true links here steps = .ok there)
    (found : disk.look there = some kind) :
    disk.Treads anywhere links here steps there := by
  have walks := disk.walks links here steps
  generalize disk.walk true links here steps = outcome at walked walks
  induction walks with
  | arrive =>
      cases walked
      exact .arrive found trivial
  | stay holdsFolder _ inductionHypothesis =>
      exact .stay holdsFolder trivial (inductionHypothesis walked)
  | up holdsFolder _ inductionHypothesis =>
      exact .up holdsFolder trivial (inductionHypothesis walked)
  | vacant _ _ vacant =>
      cases walked
      simp [vacant] at found
  | enterFolder holdsFolder fits entered _ inductionHypothesis =>
      exact .enter holdsFolder trivial fits entered (by simp [Kind.IsLink])
        (inductionHypothesis walked)
  | enterFile holdsFolder fits entered _ inductionHypothesis =>
      exact .enter holdsFolder trivial fits entered (by simp [Kind.IsLink])
        (inductionHypothesis walked)
  | follow holdsFolder fits linked _ inductionHypothesis =>
      exact .follow holdsFolder trivial fits linked trivial (inductionHypothesis walked)
  | nowhere | outside | tooLong | missing | lost => cases walked

namespace Treads

variable {disk : Disk} {allowed : Location → Prop} {links : Nat} {here there : Location}
  {steps : List Step}

theorem walk_eq
    (treads : disk.Treads allowed links here steps there) :
    disk.walk true links here steps = .ok there := by
  induction treads with
  | arrive _ _ => exact walk_nil disk _ _
  | stay holdsFolder _ _ inductionHypothesis =>
      simpa [walk_cons, holdsFolder] using inductionHypothesis
  | up holdsFolder _ _ inductionHypothesis =>
      simpa [walk_cons, holdsFolder] using inductionHypothesis
  | @enter _ _ _ _ kind _ holdsFolder _ fits entered noLink _ inductionHypothesis =>
      rcases kind with (file | target) | _
      · simpa [walk_cons, holdsFolder, Nat.not_lt.mpr fits, entered] using inductionHypothesis
      · exact absurd ⟨target, rfl⟩ noLink
      · simpa [walk_cons, holdsFolder, Nat.not_lt.mpr fits, entered] using inductionHypothesis
  | follow holdsFolder _ fits linked _ _ inductionHypothesis =>
      simpa [walk_cons, holdsFolder, Nat.not_lt.mpr fits, linked, Disk.follow, startOfTarget] using
        inductionHypothesis

/-- A walk comes by the same places where nothing was lost. -/
theorem of_kept
    {changed : Disk}
    (treads : disk.Treads allowed links here steps there)
    (kept : ∀ place kind, disk.look place = some kind → changed.look place = some kind) :
    changed.Treads allowed links here steps there := by
  induction treads with
  | arrive found isAllowed => exact .arrive (kept _ _ found) isAllowed
  | stay holdsFolder isAllowed _ inductionHypothesis =>
      exact .stay (kept _ _ holdsFolder) isAllowed inductionHypothesis
  | up holdsFolder isAllowed _ inductionHypothesis =>
      exact .up (kept _ _ holdsFolder) isAllowed inductionHypothesis
  | enter holdsFolder isAllowed fits entered noLink _ inductionHypothesis =>
      exact .enter (kept _ _ holdsFolder) isAllowed fits (kept _ _ entered) noLink
        inductionHypothesis
  | follow holdsFolder isAllowed fits linked linkAllowed _ inductionHypothesis =>
      exact .follow (kept _ _ holdsFolder) isAllowed fits (kept _ _ linked) linkAllowed
        inductionHypothesis

/-- Where a walk arrives does not depend on how many links it may follow. -/
theorem unique
    {others : Location → Prop}
    {more : Nat}
    {elsewhere : Location}
    (treads : disk.Treads allowed links here steps there)
    (again : disk.Treads others more here steps elsewhere) :
    there = elsewhere := by
  induction treads generalizing more with
  | arrive _ _ =>
      cases again
      rfl
  | stay _ _ _ inductionHypothesis =>
      cases again with
      | stay _ _ onward => exact inductionHypothesis onward
  | up _ _ _ inductionHypothesis =>
      cases again with
      | up _ _ onward => exact inductionHypothesis onward
  | enter _ _ _ entered noLink _ inductionHypothesis =>
      cases again with
      | enter _ _ _ _ _ onward => exact inductionHypothesis onward
      | follow _ _ _ linked _ _ =>
          cases entered.symm.trans linked
          exact absurd ⟨_, rfl⟩ noLink
  | follow _ _ _ linked _ _ inductionHypothesis =>
      cases again with
      | enter _ _ _ entered noLink _ =>
          cases linked.symm.trans entered
          exact absurd ⟨_, rfl⟩ noLink
      | follow _ _ _ linkedAgain _ onward =>
          cases linked.symm.trans linkedAgain
          exact inductionHypothesis onward

/-- A walk can be cut anywhere; where it is cut before a step it has come to a folder. -/
theorem split
    {first second : List Step}
    (treads : disk.Treads allowed links here (first ++ second) there) :
    ∃ left middle, disk.Treads allowed links here first middle ∧
      disk.Treads allowed left middle second there := by
  generalize shape : first ++ second = steps at treads
  induction treads generalizing first with
  | arrive found isAllowed =>
      obtain ⟨rfl, rfl⟩ := List.append_eq_nil_iff.mp shape
      exact ⟨links, _, .arrive found isAllowed, .arrive found isAllowed⟩
  | stay holdsFolder isAllowed onward inductionHypothesis =>
      rcases List.append_eq_cons_iff.mp shape with ⟨rfl, rfl⟩ | ⟨rest, rfl, sameRest⟩
      · exact ⟨_, _, .arrive holdsFolder isAllowed, .stay holdsFolder isAllowed onward⟩
      · obtain ⟨left, middle, before, after⟩ := inductionHypothesis sameRest.symm
        exact ⟨left, middle, .stay holdsFolder isAllowed before, after⟩
  | up holdsFolder isAllowed onward inductionHypothesis =>
      rcases List.append_eq_cons_iff.mp shape with ⟨rfl, rfl⟩ | ⟨rest, rfl, sameRest⟩
      · exact ⟨_, _, .arrive holdsFolder isAllowed, .up holdsFolder isAllowed onward⟩
      · obtain ⟨left, middle, before, after⟩ := inductionHypothesis sameRest.symm
        exact ⟨left, middle, .up holdsFolder isAllowed before, after⟩
  | enter holdsFolder isAllowed fits entered noLink onward inductionHypothesis =>
      rcases List.append_eq_cons_iff.mp shape with ⟨rfl, rfl⟩ | ⟨rest, rfl, sameRest⟩
      · exact ⟨_, _, .arrive holdsFolder isAllowed,
          .enter holdsFolder isAllowed fits entered noLink onward⟩
      · obtain ⟨left, middle, before, after⟩ := inductionHypothesis sameRest.symm
        exact ⟨left, middle, .enter holdsFolder isAllowed fits entered noLink before, after⟩
  | follow holdsFolder isAllowed fits linked linkAllowed onward inductionHypothesis =>
      rcases List.append_eq_cons_iff.mp shape with ⟨rfl, rfl⟩ | ⟨rest, rfl, sameRest⟩
      · exact ⟨_, _, .arrive holdsFolder isAllowed,
          .follow holdsFolder isAllowed fits linked linkAllowed onward⟩
      · obtain ⟨left, middle, before, after⟩ := inductionHypothesis
          (List.append_assoc .. |>.trans (congrArg _ sameRest.symm))
        exact ⟨left, middle, .follow holdsFolder isAllowed fits linked linkAllowed before, after⟩

theorem starts
    {step : Step}
    {rest : List Step}
    (treads : disk.Treads allowed links here (step :: rest) there) :
    disk.look here = some .folder := by
  cases treads <;> assumption

theorem allowed_start
    (treads : disk.Treads allowed links here steps there) :
    allowed here := by
  cases treads <;> assumption

/-- A file is where a walk ends. -/
theorem eq_of_file
    {file : RegularFile}
    (holdsFile : disk.look here = some (.leaf (.file file)))
    (treads : disk.Treads allowed links here steps there) :
    steps = [] ∧ there = here := by
  cases steps with
  | nil =>
      cases treads
      exact ⟨rfl, rfl⟩
  | cons step rest =>
      rw [treads.starts] at holdsFile
      cases holdsFile

end Treads

theorem Leads.treads
    {disk : Disk}
    {links : Nat}
    {here there : Location}
    {steps : List Step}
    (leads : disk.Leads links here steps there) :
    disk.Treads anywhere links here steps there :=
  treads_of_walk leads.walk_eq leads.arrives

theorem Treads.leads
    {disk : Disk}
    {allowed : Location → Prop}
    {links : Nat}
    {here there : Location}
    {steps : List Step}
    (treads : disk.Treads allowed links here steps there)
    (holdsFolder : disk.look there = some .folder) :
    disk.Leads links here steps there :=
  leads_iff.mpr ⟨treads.walk_eq, holdsFolder⟩

/--
The places that steps can lead by. `follow` lists those that a link with the
steps that remain can lead by. A link at the last step is not followed from
places in `ends`.
-/
def trailWith
    (disk : Disk)
    (ends : Location → Bool)
    (follow : Location → Text → List Step → List Location) :
    Location →
    List Step →
    List Location
  | here, [] => [here]
  | here, .stay :: rest => here :: trailWith disk ends follow here rest
  | here, .up :: rest => here :: trailWith disk ends follow here.dropLast rest
  | here, .enter name :: rest =>
      here ::
        match disk.look (here ++ [name]) with
        | some (.leaf (.link target)) =>
            (here ++ [name]) ::
              if rest.isEmpty && ends (here ++ [name]) then [] else follow here target rest
        | some (.leaf (.file _)) => trailWith disk ends follow (here ++ [name]) rest
        | some .folder => trailWith disk ends follow (here ++ [name]) rest
        | none => trailWith disk ends follow (here ++ [name]) rest

/-- The places that steps can lead by when at most `links` links are followed. -/
def trail
    (disk : Disk)
    (ends : Location → Bool) :
    Nat →
    Location →
    List Step →
    List Location
  | 0 => trailWith disk ends fun _ _ _ => []
  | links + 1 =>
      trailWith disk ends fun here target rest =>
        trail disk ends links (startOfTarget here target) ((Route.ofText target).allSteps ++ rest)

/-- The places that a route can lead by, where what is missing counts as a folder. -/
def trailOf
    (disk : Disk)
    (ends : Location → Bool)
    (route : Route) :
    List Location :=
  disk.trail ends maximalLinks (disk.start route) route.allSteps

/-- The places that a route can lead by on the way to the folder of its last step. -/
def approachOf
    (disk : Disk)
    (route : Route) :
    List Location :=
  disk.trail (fun _ => false) maximalLinks (disk.start route) route.steps.dropLast

section Trail

variable (disk : Disk) (ends : Location → Bool) (links : Nat) (here : Location) (rest : List Step)

theorem trail_nil :
    disk.trail ends links here [] = [here] := by
  cases links <;> rfl

theorem trail_stay :
    disk.trail ends links here (.stay :: rest) = here :: disk.trail ends links here rest := by
  cases links <;> rfl

theorem trail_up :
    disk.trail ends links here (.up :: rest) =
      here :: disk.trail ends links here.dropLast rest := by
  cases links <;> rfl

/-- The first place on a trail is the one that it starts at. -/
theorem mem_trail
    (steps : List Step) :
    here ∈ disk.trail ends links here steps := by
  cases steps with
  | nil => simp [trail_nil]
  | cons step rest =>
      cases links <;> cases step <;> simp [trail, trailWith]

variable {disk rest}

theorem trail_enter
    {name : Name}
    (noLink : ∀ target, disk.look (here ++ [name]) ≠ some (.leaf (.link target))) :
    disk.trail ends links here (.enter name :: rest) =
      here :: disk.trail ends links (here ++ [name]) rest := by
  cases links <;> rw [trail, trailWith] <;>
    rcases found : disk.look (here ++ [name]) with _ | (file | target) | _ <;>
    first
      | exact absurd found (noLink target)
      | rfl

/-- A link on the trail is followed, unless the trail ends at it. -/
theorem trail_follow
    {name : Name}
    {target : Text}
    (linked : disk.look (here ++ [name]) = some (.leaf (.link target)))
    (goesOn : rest ≠ [] ∨ ends (here ++ [name]) = false) :
    disk.trail ends (links + 1) here (.enter name :: rest) =
      here :: (here ++ [name]) ::
        disk.trail ends links (startOfTarget here target)
          ((Route.ofText target).allSteps ++ rest) := by
  have follows : (rest.isEmpty && ends (here ++ [name])) = false := by
    simpa [Bool.and_eq_false_imp, or_iff_not_imp_left] using goesOn
  simp only [trail, trailWith, linked, follows, Bool.false_eq_true, if_false]

/-- A trail comes by the links on it. -/
theorem link_mem_trail
    {name : Name}
    {target : Text}
    (linked : disk.look (here ++ [name]) = some (.leaf (.link target))) :
    here ++ [name] ∈ disk.trail ends links here (.enter name :: rest) := by
  cases links <;> simp [trail, trailWith, linked]

end Trail

/--
A walk on a changed disk comes by the trail that its steps had before, if no
link is new and no link of the trail has become a folder. The steps may be the
first of those that the trail is of.
-/
theorem treads_of_trail
    {old new : Disk}
    {allowed : Location → Prop}
    (links : ∀ place target, new.look place = some (.leaf (.link target)) →
      old.look place = some (.leaf (.link target)))
    (noFolder : ∀ place target, allowed place → old.look place = some (.leaf (.link target)) →
      new.look place ≠ some .folder)
    {ends : Location → Bool}
    {more : List Step}
    (goesOn : more ≠ [] ∨ ∀ place, ends place = false)
    {left : Nat}
    {here there : Location}
    {steps : List Step}
    (allowedTrail : ∀ place ∈ old.trail ends left here (steps ++ more), allowed place)
    (treads : new.Treads anywhere left here steps there) :
    new.Treads allowed left here steps there := by
  induction treads with
  | arrive found _ =>
      exact .arrive found (allowedTrail _ (mem_trail ..))
  | stay holdsFolder _ _ inductionHypothesis =>
      rw [List.cons_append, trail_stay, List.forall_mem_cons] at allowedTrail
      exact .stay holdsFolder allowedTrail.1 (inductionHypothesis allowedTrail.2)
  | up holdsFolder _ _ inductionHypothesis =>
      rw [List.cons_append, trail_up, List.forall_mem_cons] at allowedTrail
      exact .up holdsFolder allowedTrail.1 (inductionHypothesis allowedTrail.2)
  | @enter left here there name kind rest holdsFolder _ fits entered noLink onward
      inductionHypothesis =>
      by_cases wasLink : ∃ target, old.look (here ++ [name]) = some (.leaf (.link target))
      · -- A link of the trail that is none any more is a file, at which the walk ends.
        obtain ⟨target, linked⟩ := wasLink
        have allowedHere := allowedTrail here (mem_trail ..)
        have allowedNext := allowedTrail _ (link_mem_trail _ _ _ linked)
        rcases kind with (file | target) | _
        · obtain ⟨rfl, rfl⟩ := onward.eq_of_file entered
          exact .enter holdsFolder allowedHere fits entered noLink (.arrive entered allowedNext)
        · exact absurd ⟨target, rfl⟩ noLink
        · exact absurd entered (noFolder _ _ allowedNext linked)
      · push Not at wasLink
        rw [List.cons_append, trail_enter _ _ _ wasLink, List.forall_mem_cons] at allowedTrail
        exact .enter holdsFolder allowedTrail.1 fits entered noLink
          (inductionHypothesis allowedTrail.2)
  | @follow left here there name target rest holdsFolder _ fits linked _ _ inductionHypothesis =>
      have goesOnHere : rest ++ more ≠ [] ∨ ends (here ++ [name]) = false :=
        goesOn.imp (List.append_ne_nil_of_right_ne_nil rest) fun never => never _
      rw [List.cons_append, trail_follow _ _ _ (links _ _ linked) goesOnHere,
        List.forall_mem_cons, List.forall_mem_cons, ← List.append_assoc] at allowedTrail
      obtain ⟨allowedHere, allowedLink, allowedRest⟩ := allowedTrail
      exact .follow holdsFolder allowedHere fits linked allowedLink
        (inductionHypothesis allowedRest)

/-- Where a walk on a changed disk leads is where its trail ended before, in the same case. -/
theorem Leads.getLast?_trail
    {old new : Disk}
    (links : ∀ place target, new.look place = some (.leaf (.link target)) →
      old.look place = some (.leaf (.link target)))
    {left : Nat}
    {here there : Location}
    {steps : List Step}
    (noFolder : ∀ place ∈ old.trail (fun _ => false) left here steps, ∀ target,
      old.look place = some (.leaf (.link target)) → new.look place ≠ some .folder)
    (leads : new.Leads left here steps there) :
    (old.trail (fun _ => false) left here steps).getLast? = some there := by
  induction leads with
  | arrive _ =>
      rw [trail_nil, List.getLast?_singleton]
  | stay _ _ inductionHypothesis =>
      rw [trail_stay, List.forall_mem_cons] at noFolder
      rw [trail_stay, List.getLast?_cons, inductionHypothesis noFolder.2, Option.getD_some]
  | up _ _ inductionHypothesis =>
      rw [trail_up, List.forall_mem_cons] at noFolder
      rw [trail_up, List.getLast?_cons, inductionHypothesis noFolder.2, Option.getD_some]
  | @enter left here _ name rest _ _ entered _ inductionHypothesis =>
      have noLink (target : Text) : old.look (here ++ [name]) ≠ some (.leaf (.link target)) :=
        fun linked => noFolder _ (link_mem_trail _ _ _ linked) target linked entered
      rw [trail_enter _ _ _ noLink, List.forall_mem_cons] at noFolder
      rw [trail_enter _ _ _ noLink, List.getLast?_cons, inductionHypothesis noFolder.2,
        Option.getD_some]
  | @follow left here there _ target rest _ _ linked _ inductionHypothesis =>
      have trail := @trail_follow old (fun _ => false) left here rest _ _ (links _ _ linked)
        (.inr rfl)
      rw [trail, List.forall_mem_cons, List.forall_mem_cons] at noFolder
      have last : (old.trail (fun _ => false) left (startOfTarget here target)
          ((Route.ofText target).allSteps ++ rest)).getLast? = some there :=
        inductionHypothesis noFolder.2.2
      rw [trail, List.getLast?_cons, List.getLast?_cons, last, Option.getD_some, Option.getD_some]

/-- On a changed disk, what texts are read through allowed places can still be read. -/
structure Keeps
    (allowed : Location → Prop)
    (old new : Disk) : Prop where
  workingFolder : new.workingFolder = old.workingFolder
  links : ∀ place target, new.look place = some (.leaf (.link target)) →
    old.look place = some (.leaf (.link target))
  folders : ∀ place, allowed place → old.look place = some .folder →
    new.look place = some .folder
  texts : ∀ place kind, allowed place → old.look place = some kind → kind.IsText →
    ∃ other, new.look place = some other ∧ other.IsText
  /-- A link is kept, or is now a text and did not lead to a folder. -/
  targets : ∀ here name target, allowed (here ++ [name]) →
    old.look (here ++ [name]) = some (.leaf (.link target)) →
    new.look (here ++ [name]) = some (.leaf (.link target)) ∨
      (∃ other, new.look (here ++ [name]) = some other ∧ other.IsText) ∧
        ∀ links there, old.Treads allowed links (startOfTarget here target)
          (Route.ofText target).allSteps there → old.look there ≠ some .folder

namespace Keeps

variable {allowed : Location → Prop} {old new : Disk}

theorem refl
    (allowed : Location → Prop)
    (disk : Disk) :
    Keeps allowed disk disk where
  workingFolder := rfl
  links _ _ := id
  folders _ _ := id
  texts _ kind _ found isText := ⟨kind, found, isText⟩
  targets _ _ _ _ := .inl

/-- A link that was kept has not become a folder. -/
theorem look_ne_folder
    (keeps : Keeps allowed old new)
    {place : Location}
    (isAllowed : allowed place)
    {target : Text}
    (linked : old.look place = some (.leaf (.link target))) :
    new.look place ≠ some .folder := by
  rcases List.eq_nil_or_concat' place with rfl | ⟨here, name, rfl⟩
  · cases linked
  · rcases keeps.targets here name target isAllowed linked with
      linkedThen | ⟨⟨other, found, isText⟩, -⟩
    · simp [linkedThen]
    · obtain ⟨file, text, rfl, -⟩ := isText
      simp [found]

/--
A way to a folder comes by the trail that its steps had before and leads where
the trail ended, if the links on the trail were kept.
-/
theorem treads_trail
    (keeps : Keeps allowed old new)
    {links : Nat}
    {here there : Location}
    {steps : List Step}
    (linksAllowed : ∀ place ∈ old.trail (fun _ => false) links here steps, ∀ target,
      old.look place = some (.leaf (.link target)) → allowed place)
    (leads : new.Leads links here steps there) :
    (old.trail (fun _ => false) links here steps).getLast? = some there ∧
      new.Treads (· ∈ old.trail (fun _ => false) links here steps) links here steps there := by
  have noFolder (place : Location)
      (onTrail : place ∈ old.trail (fun _ => false) links here steps) (target : Text)
      (linked : old.look place = some (.leaf (.link target))) :
      new.look place ≠ some .folder :=
    keeps.look_ne_folder (linksAllowed place onTrail target linked) linked
  have wholeTrail : ∀ place ∈ old.trail (fun _ => false) links here (steps ++ []),
      place ∈ old.trail (fun _ => false) links here steps := by
    rw [List.append_nil]
    exact fun _ => id
  exact ⟨leads.getLast?_trail keeps.links noFolder,
    treads_of_trail keeps.links (fun place target onTrail => noFolder place onTrail target)
      (.inr fun _ => rfl) wholeTrail leads.treads⟩

/-- A walk that came to a folder still comes to it. -/
theorem treads_folder
    (keeps : Keeps allowed old new)
    {links : Nat}
    {here there : Location}
    {steps : List Step}
    (treads : old.Treads allowed links here steps there)
    (found : old.look there = some .folder) :
    new.Treads allowed links here steps there ∧ new.look there = some .folder := by
  induction treads with
  | arrive _ isAllowed =>
      have holdsThen := keeps.folders _ isAllowed found
      exact ⟨.arrive holdsThen isAllowed, holdsThen⟩
  | stay holdsFolder isAllowed _ inductionHypothesis =>
      exact (inductionHypothesis found).imp_left
        (.stay (keeps.folders _ isAllowed holdsFolder) isAllowed)
  | up holdsFolder isAllowed _ inductionHypothesis =>
      exact (inductionHypothesis found).imp_left
        (.up (keeps.folders _ isAllowed holdsFolder) isAllowed)
  | @enter _ here there name next rest holdsFolder isAllowed fits entered noLink onward
      inductionHypothesis =>
      rcases next with (file | target) | _
      · obtain ⟨-, rfl⟩ := onward.eq_of_file entered
        cases entered.symm.trans found
      · exact absurd ⟨target, rfl⟩ noLink
      · exact (inductionHypothesis found).imp_left
          (.enter (keeps.folders _ isAllowed holdsFolder) isAllowed fits
            (keeps.folders _ onward.allowed_start entered) noLink)
  | @follow _ here there name target rest holdsFolder isAllowed fits linked linkAllowed onward
      inductionHypothesis =>
      rcases keeps.targets here name target linkAllowed linked with linkedThen | ⟨-, noFolder⟩
      · exact (inductionHypothesis found).imp_left
          (.follow (keeps.folders _ isAllowed holdsFolder) isAllowed fits linkedThen linkAllowed)
      · -- What the link led to was the folder or on the way to it.
        obtain ⟨left, middle, before, after⟩ := onward.split
        cases rest with
        | nil =>
            cases after
            exact absurd found (noFolder _ _ before)
        | cons step more => exact absurd after.starts (noFolder _ _ before)

/--
A walk that came to a text still comes to one, if all of its trail is allowed.
Where the trail ends at a link, a text stands now.
-/
theorem treads_text
    (keeps : Keeps allowed old new)
    {ends : Location → Bool}
    (standing : ∀ place, allowed place → ends place = true →
      ∃ kind, new.look place = some kind ∧ kind.IsText)
    {links : Nat}
    {here there : Location}
    {steps : List Step}
    (allowedTrail : ∀ place ∈ old.trail ends links here steps, allowed place)
    (treads : old.Treads anywhere links here steps there)
    {kind : Kind}
    (found : old.look there = some kind)
    (isText : kind.IsText) :
    ∃ place other, new.Treads anywhere links here steps place ∧ new.look place = some other ∧
      other.IsText := by
  induction treads with
  | @arrive _ here _ _ _ =>
      obtain ⟨other, foundThen, isTextThen⟩ :=
        keeps.texts _ kind (allowedTrail _ (mem_trail ..)) found isText
      exact ⟨here, other, .arrive foundThen trivial, foundThen, isTextThen⟩
  | stay holdsFolder _ _ inductionHypothesis =>
      rw [trail_stay, List.forall_mem_cons] at allowedTrail
      obtain ⟨place, other, onward, text⟩ := inductionHypothesis allowedTrail.2 found
      exact ⟨place, other,
        .stay (keeps.folders _ allowedTrail.1 holdsFolder) trivial onward, text⟩
  | up holdsFolder _ _ inductionHypothesis =>
      rw [trail_up, List.forall_mem_cons] at allowedTrail
      obtain ⟨place, other, onward, text⟩ := inductionHypothesis allowedTrail.2 found
      exact ⟨place, other,
        .up (keeps.folders _ allowedTrail.1 holdsFolder) trivial onward, text⟩
  | @enter links here _ name next rest holdsFolder _ fits entered noLink onward
      inductionHypothesis =>
      have notLinked (target : Text) : old.look (here ++ [name]) ≠ some (.leaf (.link target)) := by
        intro linked
        cases entered.symm.trans linked
        exact noLink ⟨target, rfl⟩
      rw [trail_enter _ _ _ notLinked, List.forall_mem_cons] at allowedTrail
      have holdsThen := keeps.folders _ allowedTrail.1 holdsFolder
      have nextAllowed := allowedTrail.2 _ (mem_trail ..)
      rcases next with (file | target) | _
      · -- The walk ends at a file, which is a text.
        obtain ⟨rfl, rfl⟩ := onward.eq_of_file entered
        obtain ⟨other, foundThen, isTextThen⟩ := keeps.texts _ kind nextAllowed found isText
        exact ⟨_, other, .enter holdsThen trivial fits foundThen isTextThen.not_isLink
          (.arrive foundThen trivial), foundThen, isTextThen⟩
      · exact absurd entered (notLinked target)
      · obtain ⟨place, other, onwardThen, text⟩ := inductionHypothesis allowedTrail.2 found
        exact ⟨place, other, .enter holdsThen trivial fits
          (keeps.folders _ nextAllowed entered) noLink onwardThen, text⟩
  | @follow links here _ name target rest holdsFolder _ fits linked _ onward
      inductionHypothesis =>
      have holdsThen := keeps.folders _ (allowedTrail _ (mem_trail ..)) holdsFolder
      have linkAllowed := allowedTrail _ (link_mem_trail _ _ _ linked)
      have endsHere {other : Kind} (foundThen : new.look (here ++ [name]) = some other)
          (isTextThen : other.IsText) :
          ∃ place last, new.Treads anywhere (links + 1) here [.enter name] place ∧
            new.look place = some last ∧ last.IsText :=
        ⟨_, other, .enter holdsThen trivial fits foundThen isTextThen.not_isLink
          (.arrive foundThen trivial), foundThen, isTextThen⟩
      by_cases ended : rest = [] ∧ ends (here ++ [name]) = true
      · obtain ⟨rfl, isEnd⟩ := ended
        obtain ⟨other, foundThen, isTextThen⟩ := standing _ linkAllowed isEnd
        exact endsHere foundThen isTextThen
      · have goesOn : rest ≠ [] ∨ ends (here ++ [name]) = false := by
          simpa [or_iff_not_imp_left] using ended
        rw [trail_follow _ _ _ linked goesOn, List.forall_mem_cons, List.forall_mem_cons]
          at allowedTrail
        rcases keeps.targets here name target linkAllowed linked with
          linkedThen | ⟨⟨other, foundThen, isTextThen⟩, noFolder⟩
        · obtain ⟨place, other, onwardThen, text⟩ := inductionHypothesis allowedTrail.2.2 found
          exact ⟨place, other, .follow holdsThen trivial fits linkedThen trivial onwardThen, text⟩
        · cases rest with
          | nil => exact endsHere foundThen isTextThen
          | cons step more =>
              obtain ⟨left, middle, before, after⟩ := onward.split
              have allowedBefore := treads_of_trail (fun _ _ => id)
                (fun _ _ _ linked => by simp [linked]) (.inl (List.cons_ne_nil step more))
                allowedTrail.2.2 before
              exact absurd after.starts (noFolder _ _ allowedBefore)

theorem trans
    {last : Disk}
    (left : Keeps allowed old new)
    (right : Keeps allowed new last) :
    Keeps allowed old last where
  workingFolder := right.workingFolder.trans left.workingFolder
  links place target linked := left.links place target (right.links place target linked)
  folders place isAllowed holdsFolder :=
    right.folders place isAllowed (left.folders place isAllowed holdsFolder)
  texts place kind isAllowed found isText := by
    obtain ⟨other, foundThen, isTextThen⟩ := left.texts place kind isAllowed found isText
    exact right.texts place other isAllowed foundThen isTextThen
  targets here name target isAllowed linked := by
    rcases left.targets here name target isAllowed linked with
      linkedThen | ⟨⟨other, foundThen, isTextThen⟩, noFolder⟩
    · rcases right.targets here name target isAllowed linkedThen with
        linkedStill | ⟨isNowText, noFolder⟩
      · exact .inl linkedStill
      · refine .inr ⟨isNowText, fun links there treads holdsFolder => ?_⟩
        obtain ⟨treadsThen, holdsThen⟩ := left.treads_folder treads holdsFolder
        exact noFolder links there treadsThen holdsThen
    · exact .inr ⟨right.texts _ other isAllowed foundThen isTextThen, noFolder⟩

end Keeps

/--
Where steps led to a folder they lead to the same folder or to none, if no link
is new and new folders are where folders or nothing was.
-/
theorem Leads.eq_of_leads
    {old new : Disk}
    (links : ∀ place target, new.look place = some (.leaf (.link target)) →
      old.look place = some (.leaf (.link target)))
    (folders : ∀ place, new.look place = some .folder →
      old.look place = some .folder ∨ old.look place = none)
    {left more : Nat}
    {here there elsewhere : Location}
    {steps : List Step}
    (leads : old.Leads left here steps there)
    (leadsThen : new.Leads more here steps elsewhere) :
    elsewhere = there := by
  induction leadsThen generalizing left with
  | arrive _ =>
      cases leads
      rfl
  | stay _ _ inductionHypothesis =>
      cases leads with
      | stay _ onward => exact inductionHypothesis onward
  | up _ _ inductionHypothesis =>
      cases leads with
      | up _ onward => exact inductionHypothesis onward
  | enter _ _ entered _ inductionHypothesis =>
      cases leads with
      | enter _ _ _ onward => exact inductionHypothesis onward
      | follow _ _ linked _ =>
          rcases folders _ entered with wasFolder | wasMissing
          · cases linked.symm.trans wasFolder
          · cases linked.symm.trans wasMissing
  | follow _ _ linked _ inductionHypothesis =>
      have wasLinked := links _ _ linked
      cases leads with
      | enter _ _ entered _ => cases entered.symm.trans wasLinked
      | follow _ _ linkedBefore onward =>
          cases wasLinked.symm.trans linkedBefore
          exact inductionHypothesis onward

end Disk

end NotePublisher
