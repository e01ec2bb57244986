import NotePublisher.Proofs.Disk.Access

namespace NotePublisher

/-!
# Walks that arrive

`Disk.Leads` relates the start of a walk to the folder at which it arrives,
with one rule for each kind of step. A walk arrives exactly if `Disk.walk`
gives a folder (`leads_iff`), and does so whatever steps that stay are put in
or left out (`Leads.of_same_moves`). `Disk.Walks` has a rule for the ways in
which a step can fail as well, for the induction over any walk.
-/

namespace Disk

/-- The steps lead through folders from one location to another, along at most `links` links. -/
inductive Leads (disk : Disk) : Nat → Location → List Step → Location → Prop where
  | arrive {links : Nat} {here : Location} :
      disk.look here = some .folder →
      Leads disk links here [] here
  | stay {links : Nat} {here there : Location} {rest : List Step} :
      disk.look here = some .folder →
      Leads disk links here rest there →
      Leads disk links here (.stay :: rest) there
  | up {links : Nat} {here there : Location} {rest : List Step} :
      disk.look here = some .folder →
      Leads disk links here.dropLast rest there →
      Leads disk links here (.up :: rest) there
  | enter {links : Nat} {here there : Location} {name : Name} {rest : List Step} :
      disk.look here = some .folder →
      name.size ≤ maximalNameSize →
      disk.look (here ++ [name]) = some .folder →
      Leads disk links (here ++ [name]) rest there →
      Leads disk links here (.enter name :: rest) there
  | follow {links : Nat} {here there : Location} {name : Name} {target : Text}
      {rest : List Step} :
      disk.look here = some .folder →
      name.size ≤ maximalNameSize →
      disk.look (here ++ [name]) = some (.leaf (.link target)) →
      Leads disk links (if (Route.ofText target).absolute then [] else here)
        ((Route.ofText target).allSteps ++ rest) there →
      Leads disk (links + 1) here (.enter name :: rest) there

theorem walk_nil
    (disk : Disk)
    (links : Nat)
    (here : Location) :
    disk.walk true links here [] = .ok here := by
  cases links <;> rfl

/-- Where a link leads to with the steps that remain. -/
def follow
    (disk : Disk) :
    Nat →
    Location →
    Text →
    List Step →
    Except DiskError Location
  | 0, _, _, _ => .error .tooManyLinks
  | links + 1, here, target, rest =>
      disk.walk true links
        (if (Route.ofText target).absolute then [] else here)
        ((Route.ofText target).allSteps ++ rest)

/-- The next step is taken from a folder, and a link is followed with the steps that remain. -/
theorem walk_cons
    (disk : Disk)
    (links : Nat)
    (here : Location)
    (step : Step)
    (rest : List Step) :
    disk.walk true links here (step :: rest) =
      match disk.look here with
      | none => .error .notFound
      | some (.leaf _) => .error .notADirectory
      | some .folder =>
          match step with
          | .stay => disk.walk true links here rest
          | .up => disk.walk true links here.dropLast rest
          | .enter name =>
              if maximalNameSize < name.size then
                .error .nameTooLong
              else
                match disk.look (here ++ [name]) with
                | none => if rest.isEmpty then .ok (here ++ [name]) else .error .notFound
                | some (.leaf (.link target)) => disk.follow links here target rest
                | some _ => disk.walk true links (here ++ [name]) rest := by
  cases links <;> cases step <;> cases rest <;> rfl

/-- Where a walk leads depends on the tree only. -/
theorem walk_congr
    {left right : Disk}
    (same : ∀ place, left.look place = right.look place)
    (links : Nat)
    (here : Location)
    (steps : List Step) :
    left.walk true links here steps = right.walk true links here steps := by
  induction links using Nat.strongRecOn generalizing here steps with
  | ind links fewerLinks =>
      induction steps generalizing here with
      | nil =>
          rw [walk_nil, walk_nil]
      | cons step rest inductionHypothesis =>
          have followed (target : Text) :
              left.follow links here target rest = right.follow links here target rest := by
            cases links with
            | zero => rfl
            | succ fewer => exact fewerLinks fewer (Nat.lt_succ_self fewer) _ _
          simp only [walk_cons, same, inductionHypothesis, followed]

/-- The outcome of a walk, with one rule for each way in which a step can go. -/
inductive Walks (disk : Disk) :
    Nat → Location → List Step → Except DiskError Location → Prop where
  | arrive {links : Nat} {here : Location} :
      Walks disk links here [] (.ok here)
  | nowhere {links : Nat} {here : Location} {step : Step} {rest : List Step} :
      disk.look here = none →
      Walks disk links here (step :: rest) (.error .notFound)
  | outside {links : Nat} {here : Location} {content : Leaf} {step : Step}
      {rest : List Step} :
      disk.look here = some (.leaf content) →
      Walks disk links here (step :: rest) (.error .notADirectory)
  | stay {links : Nat} {here : Location} {rest : List Step}
      {outcome : Except DiskError Location} :
      disk.look here = some .folder →
      Walks disk links here rest outcome →
      Walks disk links here (.stay :: rest) outcome
  | up {links : Nat} {here : Location} {rest : List Step}
      {outcome : Except DiskError Location} :
      disk.look here = some .folder →
      Walks disk links here.dropLast rest outcome →
      Walks disk links here (.up :: rest) outcome
  | tooLong {links : Nat} {here : Location} {name : Name} {rest : List Step} :
      disk.look here = some .folder →
      maximalNameSize < name.size →
      Walks disk links here (.enter name :: rest) (.error .nameTooLong)
  | vacant {links : Nat} {here : Location} {name : Name} :
      disk.look here = some .folder →
      name.size ≤ maximalNameSize →
      disk.look (here ++ [name]) = none →
      Walks disk links here [.enter name] (.ok (here ++ [name]))
  | missing {links : Nat} {here : Location} {name : Name} {next : Step} {rest : List Step} :
      disk.look here = some .folder →
      name.size ≤ maximalNameSize →
      disk.look (here ++ [name]) = none →
      Walks disk links here (.enter name :: next :: rest) (.error .notFound)
  | enterFolder {links : Nat} {here : Location} {name : Name} {rest : List Step}
      {outcome : Except DiskError Location} :
      disk.look here = some .folder →
      name.size ≤ maximalNameSize →
      disk.look (here ++ [name]) = some .folder →
      Walks disk links (here ++ [name]) rest outcome →
      Walks disk links here (.enter name :: rest) outcome
  | enterFile {links : Nat} {here : Location} {name : Name} {file : RegularFile} {rest : List Step}
      {outcome : Except DiskError Location} :
      disk.look here = some .folder →
      name.size ≤ maximalNameSize →
      disk.look (here ++ [name]) = some (.leaf (.file file)) →
      Walks disk links (here ++ [name]) rest outcome →
      Walks disk links here (.enter name :: rest) outcome
  | lost {here : Location} {name : Name} {target : Text} {rest : List Step} :
      disk.look here = some .folder →
      name.size ≤ maximalNameSize →
      disk.look (here ++ [name]) = some (.leaf (.link target)) →
      Walks disk 0 here (.enter name :: rest) (.error .tooManyLinks)
  | follow {links : Nat} {here : Location} {name : Name} {target : Text} {rest : List Step}
      {outcome : Except DiskError Location} :
      disk.look here = some .folder →
      name.size ≤ maximalNameSize →
      disk.look (here ++ [name]) = some (.leaf (.link target)) →
      Walks disk links (if (Route.ofText target).absolute then [] else here)
        ((Route.ofText target).allSteps ++ rest) outcome →
      Walks disk (links + 1) here (.enter name :: rest) outcome

/-- `Disk.walk` goes by the rules of `Disk.Walks`. -/
theorem walks
    (disk : Disk)
    (links : Nat)
    (here : Location)
    (steps : List Step) :
    disk.Walks links here steps (disk.walk true links here steps) := by
  -- Following a link puts new steps before the rest, but uses up one of the links.
  induction links using Nat.strongRecOn generalizing here steps with
  | ind links fewerLinks =>
      induction steps generalizing here with
      | nil =>
          rw [walk_nil]
          exact .arrive
      | cons step rest inductionHypothesis =>
          rw [walk_cons]
          rcases holdsFolder : disk.look here with _ | content | _
          · exact .nowhere holdsFolder
          · exact .outside holdsFolder
          cases step with
          | stay => exact .stay holdsFolder (inductionHypothesis here)
          | up => exact .up holdsFolder (inductionHypothesis here.dropLast)
          | enter name =>
              by_cases long : maximalNameSize < name.size
              · simpa only [long, if_true] using .tooLong holdsFolder long
              have fits := Nat.not_lt.mp long
              simp only [long, if_false]
              rcases next : disk.look (here ++ [name]) with _ | (file | target) | _
              · cases rest with
                | nil => exact .vacant holdsFolder fits next
                | cons => exact .missing holdsFolder fits next
              · exact .enterFile holdsFolder fits next (inductionHypothesis _)
              · cases links with
                | zero => exact .lost holdsFolder fits next
                | succ fewer =>
                    exact .follow holdsFolder fits next
                      (fewerLinks fewer (Nat.lt_succ_self fewer) _ _)
              · exact .enterFolder holdsFolder fits next (inductionHypothesis _)

namespace Leads

variable {disk : Disk} {links : Nat} {here there : Location} {steps : List Step}

theorem starts
    (leads : disk.Leads links here steps there) :
    disk.look here = some .folder := by
  cases leads <;> assumption

theorem arrives
    (leads : disk.Leads links here steps there) :
    disk.look there = some .folder := by
  induction leads with
  | arrive holdsFolder => exact holdsFolder
  | stay _ _ inductionHypothesis => exact inductionHypothesis
  | up _ _ inductionHypothesis => exact inductionHypothesis
  | enter _ _ _ _ inductionHypothesis => exact inductionHypothesis
  | follow _ _ _ _ inductionHypothesis => exact inductionHypothesis

/-- After the steps that lead somewhere, a walk goes on from there. -/
theorem walk_append
    (leads : disk.Leads links here steps there) :
    ∃ left, ∀ more, disk.walk true links here (steps ++ more) =
      disk.walk true left there more := by
  induction leads with
  | @arrive links here _ =>
      exact ⟨links, fun _ => rfl⟩
  | stay holdsFolder _ inductionHypothesis =>
      obtain ⟨left, goesOn⟩ := inductionHypothesis
      exact ⟨left, fun more => by simp [walk_cons, holdsFolder, goesOn]⟩
  | up holdsFolder _ inductionHypothesis =>
      obtain ⟨left, goesOn⟩ := inductionHypothesis
      exact ⟨left, fun more => by simp [walk_cons, holdsFolder, goesOn]⟩
  | enter holdsFolder fits entered _ inductionHypothesis =>
      obtain ⟨left, goesOn⟩ := inductionHypothesis
      exact ⟨left, fun more => by
        simp [walk_cons, holdsFolder, Nat.not_lt.mpr fits, entered, goesOn]⟩
  | follow holdsFolder fits linked _ inductionHypothesis =>
      obtain ⟨left, goesOn⟩ := inductionHypothesis
      exact ⟨left, fun more => by
        simp [walk_cons, holdsFolder, Nat.not_lt.mpr fits, linked, Disk.follow, ← goesOn]⟩

/-- Steps that lead somewhere are walked there. -/
theorem walk_eq
    (leads : disk.Leads links here steps there) :
    disk.walk true links here steps = .ok there := by
  obtain ⟨left, goesOn⟩ := leads.walk_append
  have arrived := goesOn []
  rwa [List.append_nil, walk_nil] at arrived

end Leads

/-- A walk leads to a folder exactly if it arrives there. -/
theorem leads_iff
    {disk : Disk}
    {links : Nat}
    {here there : Location}
    {steps : List Step} :
    disk.Leads links here steps there ↔
      disk.walk true links here steps = .ok there ∧ disk.look there = some .folder := by
  constructor
  · intro leads
    exact ⟨leads.walk_eq, leads.arrives⟩
  · rintro ⟨walked, holdsThere⟩
    have walks := disk.walks links here steps
    generalize disk.walk true links here steps = outcome at walked walks
    induction walks with
    | arrive =>
        cases walked
        exact .arrive holdsThere
    | stay holdsFolder _ inductionHypothesis =>
        exact .stay holdsFolder (inductionHypothesis walked)
    | up holdsFolder _ inductionHypothesis =>
        exact .up holdsFolder (inductionHypothesis walked)
    | vacant _ _ vacant =>
        cases walked
        simp [vacant] at holdsThere
    | enterFolder holdsFolder fits entered _ inductionHypothesis =>
        exact .enter holdsFolder fits entered (inductionHypothesis walked)
    | enterFile _ _ entered _ inductionHypothesis =>
        have inside := (inductionHypothesis walked).starts
        simp [entered] at inside
    | follow holdsFolder fits linked _ inductionHypothesis =>
        exact .follow holdsFolder fits linked (inductionHypothesis walked)
    | nowhere | outside | tooLong | missing | lost => cases walked

/-- A walk that fails goes on failing with more steps. -/
theorem walk_append_eq_error
    {disk : Disk}
    {links : Nat}
    {here : Location}
    {steps : List Step}
    {cause : DiskError}
    (failed : disk.walk true links here steps = .error cause)
    (more : List Step) :
    disk.walk true links here (steps ++ more) = .error cause := by
  have walks := disk.walks links here steps
  generalize disk.walk true links here steps = outcome at failed walks
  induction walks with
  | arrive | vacant => cases failed
  | nowhere missing =>
      simpa [walk_cons, missing] using failed
  | outside holdsLeaf =>
      simpa [walk_cons, holdsLeaf] using failed
  | stay holdsFolder _ inductionHypothesis
  | up holdsFolder _ inductionHypothesis =>
      simpa [walk_cons, holdsFolder] using inductionHypothesis failed
  | tooLong holdsFolder long =>
      simpa [walk_cons, holdsFolder, long] using failed
  | missing holdsFolder fits missing =>
      simpa [walk_cons, holdsFolder, Nat.not_lt.mpr fits, missing] using failed
  | enterFolder holdsFolder fits entered _ inductionHypothesis
  | enterFile holdsFolder fits entered _ inductionHypothesis =>
      simpa [walk_cons, holdsFolder, Nat.not_lt.mpr fits, entered] using
        inductionHypothesis failed
  | lost holdsFolder fits linked =>
      simpa [walk_cons, holdsFolder, Nat.not_lt.mpr fits, linked, follow] using failed
  | follow holdsFolder fits linked _ inductionHypothesis =>
      simpa [walk_cons, holdsFolder, Nat.not_lt.mpr fits, linked, follow] using
        inductionHypothesis failed

namespace Leads

variable {disk : Disk} {links : Nat} {here there : Location} {steps : List Step}

/-- One walk after another. -/
theorem trans
    {onward : Location}
    {more : List Step}
    (leads : disk.Leads links here steps there)
    (goesOn : ∀ left, disk.Leads left there more onward) :
    disk.Leads links here (steps ++ more) onward := by
  induction leads with
  | arrive _ =>
      exact goesOn _
  | stay holdsFolder _ inductionHypothesis =>
      exact .stay holdsFolder (inductionHypothesis goesOn)
  | up holdsFolder _ inductionHypothesis =>
      exact .up holdsFolder (inductionHypothesis goesOn)
  | enter holdsFolder fits entered _ inductionHypothesis =>
      exact .enter holdsFolder fits entered (inductionHypothesis goesOn)
  | follow holdsFolder fits linked _ inductionHypothesis =>
      refine .follow holdsFolder fits linked ?_
      exact List.append_assoc .. ▸ inductionHypothesis goesOn

/-- A walk can be cut anywhere. -/
theorem split
    {first second : List Step}
    (leads : disk.Leads links here (first ++ second) there) :
    ∃ left middle, disk.Leads links here first middle ∧
      disk.Leads left middle second there := by
  generalize shape : first ++ second = steps at leads
  induction leads generalizing first with
  | arrive holdsFolder =>
      obtain ⟨rfl, rfl⟩ := List.append_eq_nil_iff.mp shape
      exact ⟨links, _, .arrive holdsFolder, .arrive holdsFolder⟩
  | stay holdsFolder onward inductionHypothesis =>
      rcases List.append_eq_cons_iff.mp shape with ⟨rfl, rfl⟩ | ⟨rest, rfl, sameRest⟩
      · exact ⟨_, _, .arrive holdsFolder, .stay holdsFolder onward⟩
      · obtain ⟨left, middle, before, after⟩ := inductionHypothesis sameRest.symm
        exact ⟨left, middle, .stay holdsFolder before, after⟩
  | up holdsFolder onward inductionHypothesis =>
      rcases List.append_eq_cons_iff.mp shape with ⟨rfl, rfl⟩ | ⟨rest, rfl, sameRest⟩
      · exact ⟨_, _, .arrive holdsFolder, .up holdsFolder onward⟩
      · obtain ⟨left, middle, before, after⟩ := inductionHypothesis sameRest.symm
        exact ⟨left, middle, .up holdsFolder before, after⟩
  | enter holdsFolder fits entered onward inductionHypothesis =>
      rcases List.append_eq_cons_iff.mp shape with ⟨rfl, rfl⟩ | ⟨rest, rfl, sameRest⟩
      · exact ⟨_, _, .arrive holdsFolder, .enter holdsFolder fits entered onward⟩
      · obtain ⟨left, middle, before, after⟩ := inductionHypothesis sameRest.symm
        exact ⟨left, middle, .enter holdsFolder fits entered before, after⟩
  | @follow _ _ _ _ target _ holdsFolder fits linked onward inductionHypothesis =>
      rcases List.append_eq_cons_iff.mp shape with ⟨rfl, rfl⟩ | ⟨rest, rfl, sameRest⟩
      · exact ⟨_, _, .arrive holdsFolder, .follow holdsFolder fits linked onward⟩
      · obtain ⟨left, middle, before, after⟩ := inductionHypothesis
          (List.append_assoc .. |>.trans (congrArg _ sameRest.symm))
        exact ⟨left, middle, .follow holdsFolder fits linked before, after⟩

private theorem stays_append
    {stays : List Step}
    (staying : ∀ step ∈ stays, ¬ (step != .stay) = true)
    (leads : disk.Leads links here steps there) :
    disk.Leads links here (stays ++ steps) there := by
  induction stays with
  | nil =>
      exact leads
  | cons step rest inductionHypothesis =>
      have first : step = .stay := by simpa using staying step List.mem_cons_self
      subst first
      refine .stay leads.starts (inductionHypothesis ?_)
      intro step member
      exact staying step (List.mem_cons_of_mem _ member)

/-- Only the steps that move decide where a walk arrives. -/
theorem of_same_moves
    {others : List Step}
    (sameMoves : others.filter (· != .stay) = steps.filter (· != .stay))
    (leads : disk.Leads links here steps there) :
    disk.Leads links here others there := by
  induction leads generalizing others with
  | @arrive links _ holdsFolder =>
      have staying := List.filter_eq_nil_iff.mp sameMoves
      simpa using stays_append staying (@Leads.arrive disk links _ holdsFolder)
  | stay _ _ inductionHypothesis =>
      exact inductionHypothesis sameMoves
  | up holdsFolder _ inductionHypothesis =>
      obtain ⟨stays, rest, rfl, staying, -, sameRest⟩ := List.filter_eq_cons_iff.mp sameMoves
      exact stays_append staying (.up holdsFolder (inductionHypothesis sameRest))
  | enter holdsFolder fits entered _ inductionHypothesis =>
      obtain ⟨stays, rest, rfl, staying, -, sameRest⟩ := List.filter_eq_cons_iff.mp sameMoves
      exact stays_append staying
        (.enter holdsFolder fits entered (inductionHypothesis sameRest))
  | follow holdsFolder fits linked _ inductionHypothesis =>
      obtain ⟨stays, rest, rfl, staying, -, sameRest⟩ := List.filter_eq_cons_iff.mp sameMoves
      refine stays_append staying (.follow holdsFolder fits linked (inductionHypothesis ?_))
      rw [List.filter_append, List.filter_append, sameRest]

variable {changed : Disk}

/-- A walk arrives as before while the folders and links on a disk are kept. -/
theorem kept
    (leads : disk.Leads links here steps there)
    (folders : ∀ location, disk.look location = some .folder →
      changed.look location = some .folder)
    (targets : ∀ location target, disk.look location = some (.leaf (.link target)) →
      changed.look location = some (.leaf (.link target))) :
    changed.Leads links here steps there := by
  induction leads with
  | arrive holdsFolder =>
      exact .arrive (folders _ holdsFolder)
  | stay holdsFolder _ inductionHypothesis =>
      exact .stay (folders _ holdsFolder) inductionHypothesis
  | up holdsFolder _ inductionHypothesis =>
      exact .up (folders _ holdsFolder) inductionHypothesis
  | enter holdsFolder fits entered _ inductionHypothesis =>
      exact .enter (folders _ holdsFolder) fits (folders _ entered) inductionHypothesis
  | follow holdsFolder fits linked _ inductionHypothesis =>
      exact .follow (folders _ holdsFolder) fits (targets _ _ linked) inductionHypothesis

/-- When folders are removed, a walk that arrived arrives there still or fails. -/
theorem kept_or_error
    (leads : disk.Leads links here steps there)
    (folders : ∀ location, disk.look location = some .folder →
      changed.look location = some .folder ∨ changed.look location = none)
    (targets : ∀ location target, disk.look location = some (.leaf (.link target)) →
      changed.look location = some (.leaf (.link target)))
    (holdsThere : changed.look there = some .folder) :
    changed.Leads links here steps there ∨
      ∃ cause, changed.walk true links here steps = .error cause := by
  induction leads with
  | arrive _ =>
      exact .inl (.arrive holdsThere)
  | stay holdsFolder _ inductionHypothesis =>
      rcases folders _ holdsFolder with holdsHere | missing
      · rcases inductionHypothesis holdsThere with onward | failed
        · exact .inl (.stay holdsHere onward)
        · exact .inr (by simpa [walk_cons, holdsHere] using failed)
      · exact .inr ⟨.notFound, by simp [walk_cons, missing]⟩
  | up holdsFolder _ inductionHypothesis =>
      rcases folders _ holdsFolder with holdsHere | missing
      · rcases inductionHypothesis holdsThere with onward | failed
        · exact .inl (.up holdsHere onward)
        · exact .inr (by simpa [walk_cons, holdsHere] using failed)
      · exact .inr ⟨.notFound, by simp [walk_cons, missing]⟩
  | @enter links here there name rest holdsFolder fits entered onward inductionHypothesis =>
      have short := Nat.not_lt.mpr fits
      rcases folders _ holdsFolder with holdsHere | missing
      · rcases folders _ entered with holdsNext | missingNext
        · rcases inductionHypothesis holdsThere with onward | failed
          · exact .inl (.enter holdsHere fits holdsNext onward)
          · exact .inr (by simpa [walk_cons, holdsHere, short, holdsNext] using failed)
        · cases rest with
          | nil =>
              cases onward with
              | arrive _ => simp [missingNext] at holdsThere
          | cons => exact .inr ⟨.notFound, by simp [walk_cons, holdsHere, short, missingNext]⟩
      · exact .inr ⟨.notFound, by simp [walk_cons, missing]⟩
  | follow holdsFolder fits linked _ inductionHypothesis =>
      have short := Nat.not_lt.mpr fits
      have linkedStill := targets _ _ linked
      rcases folders _ holdsFolder with holdsHere | missing
      · rcases inductionHypothesis holdsThere with onward | failed
        · exact .inl (.follow holdsHere fits linkedStill onward)
        · exact .inr (by
            simpa [walk_cons, holdsHere, short, linkedStill, Disk.follow] using failed)
      · exact .inr ⟨.notFound, by simp [walk_cons, missing]⟩

end Leads

/-- The folder that steps lead to, or why they lead to none. -/
def reachFolder
    (disk : Disk)
    (links : Nat)
    (here : Location)
    (steps : List Step) :
    Except DiskError Location :=
  match disk.walk true links here steps with
  | .error cause => .error cause
  | .ok there =>
      match disk.look there with
      | none => .error .notFound
      | some (.leaf _) => .error .notADirectory
      | some .folder => .ok there

/-- A walk to a folder first enters what stands in its way, unless that is no folder. -/
theorem reachFolder_cons
    {disk : Disk}
    {here : Location}
    {name : Name}
    (holdsFolder : disk.look here = some .folder)
    (noLink : ∀ target, disk.look (here ++ [name]) ≠ some (.leaf (.link target)))
    (links : Nat)
    (rest : List Step) :
    disk.reachFolder links here (.enter name :: rest) =
      if maximalNameSize < name.size then
        .error .nameTooLong
      else
        match disk.look (here ++ [name]) with
        | none => .error .notFound
        | some (.leaf _) => .error .notADirectory
        | some .folder => disk.reachFolder links (here ++ [name]) rest := by
  rw [reachFolder, walk_cons]
  by_cases long : maximalNameSize < name.size
  · simp [holdsFolder, long]
  rcases next : disk.look (here ++ [name]) with _ | (file | target) | _
  · cases rest <;> simp [holdsFolder, long, next]
  · cases rest <;> simp [holdsFolder, long, next, walk_nil, walk_cons]
  · exact absurd next (noLink target)
  · simp [holdsFolder, long, next, reachFolder]

/-- Without links, a walk down from a folder goes as `Folder.access` does. -/
theorem reachFolder_enter
    {disk : Disk}
    {home : Location}
    {folder : Folder}
    (inside : disk.top.folderAt? home = some folder)
    (linkFree : folder.LinkFree)
    (links : Nat)
    (location : Location) :
    disk.reachFolder links home (location.map .enter) =
      match folder.access location with
      | .ok _ => .ok (home ++ location)
      | .error cause => .error cause := by
  induction location generalizing home folder with
  | nil =>
      have holdsFolder : disk.look home = some .folder :=
        Folder.look_eq_folder_of_folderAt? inside
      simp [reachFolder, walk_nil, holdsFolder, Folder.access]
  | cons name rest inductionHypothesis =>
      have holdsFolder : disk.look home = some .folder :=
        Folder.look_eq_folder_of_folderAt? inside
      have nextKind : disk.look (home ++ [name]) = folder.look [name] :=
        Folder.look_append [name] inside
      have noLink : ∀ target, disk.look (home ++ [name]) ≠ some (.leaf (.link target)) := by
        intro target
        rw [nextKind]
        exact linkFree [name] target
      rw [List.map_cons, reachFolder_cons holdsFolder noLink, nextKind, Folder.look_cons,
        Folder.access]
      split
      · rfl
      cases found : folder.find? name with
      | none => rfl
      | some entry =>
          cases entry with
          | leaf content => rfl
          | folder children =>
              have inner : disk.top.folderAt? (home ++ [name]) = some children := by
                simp [Folder.folderAt?_append, inside, Folder.folderAt?, found]
              have innerFree : children.LinkFree := by
                intro location target
                simpa [Folder.look_cons, found, Entry.look] using
                  linkFree (name :: location) target
              simpa [Entry.look] using inductionHypothesis inner innerFree

/-- Permission bits depend on the tree and the working folder only. -/
theorem mode?_congr
    {left right : Disk}
    (same : ∀ place, left.look place = right.look place)
    (workingFolder : left.workingFolder = right.workingFolder)
    (route : Route) :
    left.mode? route = right.mode? route := by
  simp only [mode?, inspect, resolve, start, workingFolder, walk_congr same, same]

/-- A route leads to a folder exactly if it is resolved to the place of one. -/
theorem isFolder_iff
    {disk : Disk}
    {route : Route} :
    disk.isFolder route = true ↔
      ∃ place, disk.resolve route = .ok place ∧ disk.look place = some .folder := by
  rw [isFolder, inspect]
  rcases disk.resolve route with cause | place
  · simp
  · rcases found : disk.look place with _ | content | _ <;> simp [found]

/-- What can be listed is a folder. -/
theorem isFolder_of_readFolder
    {disk : Disk}
    {route : Route}
    {folder : Folder}
    (read : disk.readFolder route = .ok folder) :
    disk.isFolder route = true := by
  cases resolved : disk.resolve route with
  | error cause => simp [readFolder, resolved] at read
  | ok place =>
      cases inside : disk.top.folderAt? place with
      | none =>
          rcases found : disk.look place with _ | kind <;>
            simp [readFolder, resolved, inside, found] at read
      | some other =>
          exact isFolder_iff.mpr ⟨place, resolved, Folder.look_eq_folder_of_folderAt? inside⟩

/-- A route that is resolved is legible and walked. -/
theorem walk_of_resolve
    {disk : Disk}
    {route : Route}
    {home : Location}
    (resolved : disk.resolve route = .ok home) :
    route.holdsZero = false ∧ route.isNowhere = false ∧
      disk.walk true maximalLinks (disk.start route) route.allSteps = .ok home := by
  rw [resolve] at resolved
  cases zero : route.holdsZero with
  | true => simp [zero] at resolved
  | false =>
      cases nowhere : route.isNowhere with
      | true => simp [zero, nowhere] at resolved
      | false => exact ⟨rfl, rfl, by simpa [zero, nowhere] using resolved⟩

/-- A route that is resolved to a folder leads there. -/
theorem leads_of_resolve
    {disk : Disk}
    {route : Route}
    {home : Location}
    (resolved : disk.resolve route = .ok home)
    (holdsFolder : disk.look home = some .folder) :
    disk.Leads maximalLinks (disk.start route) route.steps home := by
  have leads := leads_iff.mpr ⟨(walk_of_resolve resolved).2.2, holdsFolder⟩
  refine leads.of_same_moves ?_
  by_cases slash : route.folderOnly <;> simp [Route.allSteps, slash]

end Disk

end NotePublisher
