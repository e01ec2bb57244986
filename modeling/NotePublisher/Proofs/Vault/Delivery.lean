import NotePublisher.Proofs.Vault.Trimming

namespace NotePublisher

/-!
# What storing a document changes

A document that is stored stands at its output with the permission bits of its
source, and the folders that were missing on the way there have been made. If
its source was another file that one is gone, and so are the folders around it
that held nothing else, from the innermost on. All else is as it was
(`Vault.persistDocument_delivers`).

The permission bits are looked up when the folders have been made, since a link
can lead to its target through one of them. The path of the root can lead
through a folder that is removed; then the rest of the folders stay and nothing
is read from there any more.
-/

namespace Disk

/-- What a route leads to it still leads to where nothing was lost. -/
theorem inspect_of_kept
    {old new : Disk}
    (workingFolder : new.workingFolder = old.workingFolder)
    (kept : ∀ place kind, old.look place = some kind → new.look place = some kind)
    {route : Route}
    {kind : Kind}
    (inspected : old.inspect route = .ok kind) :
    new.inspect route = .ok kind := by
  have starts : new.start route = old.start route := by rw [start, start, workingFolder]
  rw [inspect] at inspected ⊢
  cases resolved : old.resolve route with
  | error cause =>
      rw [resolved] at inspected
      cases inspected
  | ok place =>
      obtain ⟨legible, somewhere, walked⟩ := walk_of_resolve resolved
      simp only [resolved] at inspected
      cases found : old.look place with
      | none =>
          rw [found] at inspected
          cases inspected
      | some was =>
          have walkedThen := ((treads_of_walk walked found).of_kept kept).walk_eq
          rw [found] at inspected
          simpa [resolve, legible, somewhere, starts, walkedThen, kept _ _ found] using inspected

theorem mode?_of_kept
    {old new : Disk}
    (workingFolder : new.workingFolder = old.workingFolder)
    (kept : ∀ place kind, old.look place = some kind → new.look place = some kind)
    {route : Route}
    {mode : Nat}
    (known : old.mode? route = some mode) :
    new.mode? route = some mode := by
  rw [mode?] at known ⊢
  cases inspected : old.inspect route with
  | error cause =>
      rw [inspected] at known
      cases known
  | ok kind => rwa [inspect_of_kept workingFolder kept inspected, ← inspected]

end Disk

namespace Vault

open Disk

/-- Once the folders on the way to an output are there the path of the root leads to a folder. -/
def ComesHome
    (disk : Disk)
    (root : Text)
    (output : DocumentPath)
    (home : Location) :
    Prop :=
  ∃ made, Paved (Route.ofText (output.within root)).parent disk made ∧ LeadsHome made root home

/-- A folder lies around a document, below the root. -/
structure Encloses (folder location : Location) : Prop where
  notRoot : folder ≠ []
  onTheWay : folder <+: location
  notWhole : folder ≠ location

/-- With the output in place, nothing stands below a folder but what is on the way to the source. -/
def HoldsOnly
    (disk : Disk)
    (home output folder source : Location) :
    Prop :=
  ∀ place, Location.IsBelow (home ++ folder) place →
    disk.look place ≠ none ∨ place = home ++ output → place <+: home ++ source

section Results

variable (root : Text) (source output : DocumentPath) (content : Text) (home : Location)
  (old made new : Disk)

/-- The output is new, the source is gone, and the folders that held nothing else are. -/
structure Vacated : Prop where
  free : old.look (home ++ output.location) = none
  gone : new.look (home ++ source.location) = none
  kept : ∀ place, place ≠ home ++ output.location → place ≠ home ++ source.location →
    (∀ folder, Encloses folder source.location → place ≠ home ++ folder) →
    new.look place = made.look place
  folders : ∀ folder, Encloses folder source.location →
    new.look (home ++ folder) = some .folder ∨
      new.look (home ++ folder) = none ∧
        HoldsOnly made home output.location folder source.location
  trimmed : LeadsHome new root home → ∀ folder, Encloses folder source.location →
    HoldsOnly made home output.location folder source.location →
    new.look (home ++ folder) = none

/-- The output is in place, and nothing else changed but what was left of the source. -/
structure Delivered : Prop where
  workingFolder : new.workingFolder = old.workingFolder
  staged : new.staged = old.staged
  /-- Making folders changes no permission bits that the source had. -/
  modeKept : ∀ mode, old.mode? (Route.ofText (source.within root)) = some mode →
    made.mode? (Route.ofText (source.within root)) = some mode
  stored : new.look (home ++ output.location) =
    some (.leaf (.file (storedFile root source content made)))
  around : ∀ above below, output.location = above ++ below → below ≠ [] →
    new.look (home ++ above) = some .folder
  readable : LeadsHome new root home →
    new.readText (Route.ofText (output.within root)) = .ok content
  inPlace : source.sameComponents output = true → ∀ place, place ≠ home ++ output.location →
    new.look place = made.look place
  moved : source.sameComponents output = false → Vacated root source output home old made new

end Results

/-- A file was placed straight below the root, under the names of an output. -/
structure Landed
    (root : Text)
    (home : Location)
    (output : DocumentPath)
    (file : RegularFile)
    (made placed : Disk) : Prop where
  leads : LeadsHome made root home
  legible : (Route.ofText root).holdsZero = false
  normal : output.IsNormal
  fits : Location.Fits output.location
  replaced : Folder.Replaced (home ++ output.location) (some (.leaf (.file file))) made.top
    placed.top
  workingFolder : placed.workingFolder = made.workingFolder
  staged : placed.staged = made.staged

section Delivering

variable {root : Text} {source output : DocumentPath} {home : Location}
  {made placed without : Disk}

/-- An output lands as a file at its location, if no link is on its way. -/
theorem exists_landed
    (named : output.IsNamed)
    (noLink : ∀ home, LeadsHome made root home → ¬ made.Detours home output.location)
    {staged : StagedFile}
    {replacement : Replacement}
    (committed : commitStaged (Route.ofText (output.within root)) replacement
      { made with staged := staged :: made.staged } = .ok () placed) :
    ∃ home, Landed root home output staged.file made placed ∧
      (replacement = .never → made.look (home ++ output.location) = none) := by
  let ready : Disk := { made with staged := staged :: made.staged }
  rw [named.route_within] at committed
  rcases commitStaged_cases ((Route.ofText root).below output.location) ready rfl replacement with
    ⟨cause, refused⟩ | ⟨around, other, changed, done, exchanges, -, missing, others⟩
  · cases committed.symm.trans refused
  cases committed.symm.trans done
  obtain ⟨legible, -⟩ := locate_eq_enter_iff.mp exchanges.located
  have normal := named.isNormal legible
  obtain ⟨above, name, shape⟩ := location_eq_concat normal
  obtain ⟨-, -, home, leads, -⟩ := exists_leads_of_locate_below (shape ▸ exchanges.located)
  have leadsMade : LeadsHome made root home :=
    leads.kept (fun _ found => found) fun _ _ found => found
  have noDetour : ¬ ready.Detours home output.location := noLink home leadsMade
  obtain ⟨place_eq, fits⟩ := exchanges.straight leads normal.location_ne_nil noDetour
  rw [place_eq] at missing
  refine ⟨home, ⟨leadsMade, ?_, normal, fits, place_eq ▸ exchanges.replaced,
    exchanges.workingFolder, others⟩, missing⟩
  rw [Route.holdsZero, Route.below, List.any_append, Bool.or_eq_false_iff] at legible
  exact legible.1

/-- A document that stands at its output is read from there while the root leads home. -/
theorem Landed.readText_of_look
    {file : RegularFile}
    (landed : Landed root home output file made placed)
    {disk : Disk}
    (leads : LeadsHome disk root home)
    (stands : disk.look (home ++ output.location) = some (.leaf (.file file)))
    {content : Text}
    (holds : file.content = Utf8.encode content) :
    disk.readText (Route.ofText (output.within root)) = .ok content := by
  obtain ⟨above, name, shape⟩ := location_eq_concat landed.normal
  have fits := landed.fits
  rw [shape] at stands fits
  have resolved := resolve_below_of_look leads
    (Route.holdsZero_below landed.legible (shape ▸ landed.normal.plain)) fits stands
    (by simp [Kind.IsLink])
  rw [landed.normal.isNamed.route_within, shape]
  simp [readText, readFile, inspect, resolved, stands, holds, Utf8.decode?_encode]

/-- A source was removed that was straight below the root, under its names. -/
structure Withdrawn
    (home : Location)
    (source : DocumentPath)
    (placed without : Disk) : Prop where
  normal : source.IsNormal
  fits : Location.Fits source.location
  wasLeaf : ∃ content, placed.look (home ++ source.location) = some (.leaf content)
  replaced : Folder.Replaced (home ++ source.location) none placed.top without.top
  workingFolder : without.workingFolder = placed.workingFolder
  staged : without.staged = placed.staged

/-- A source that is removed leaves nothing at its location, if no link is on its way. -/
theorem withdrawn_of_removeFile
    (named : source.IsNamed)
    (leads : LeadsHome placed root home)
    (noLink : ¬ placed.Detours home source.location)
    (removed : removeFile (Route.ofText (source.within root)) placed = .ok () without) :
    Withdrawn home source placed without := by
  rw [named.route_within] at removed
  rcases removeFile_cases ((Route.ofText root).below source.location) placed with
    ⟨cause, refused⟩ | ⟨around, other, changed, content, done, exchanges, wasLeaf, staged⟩
  · cases removed.symm.trans refused
  cases removed.symm.trans done
  have normal := named.isNormal (locate_eq_enter_iff.mp exchanges.located).1
  obtain ⟨place_eq, fits⟩ := exchanges.straight leads normal.location_ne_nil noLink
  exact ⟨normal, fits, ⟨content, place_eq ▸ wasLeaf⟩, place_eq ▸ exchanges.replaced,
    exchanges.workingFolder, staged⟩

/-- The folders around a document are those that its path lists. -/
theorem encloses_iff_mem
    (normal : source.IsNormal)
    {folder : Location} :
    Encloses folder source.location ↔
      folder ∈ source.enclosingFolders.map DocumentPath.location := by
  rw [DocumentPath.mem_enclosingFolders_iff normal]
  exact ⟨fun ⟨notRoot, onTheWay, notWhole⟩ => ⟨notRoot, onTheWay, notWhole⟩,
    fun ⟨notRoot, onTheWay, notWhole⟩ => ⟨notRoot, onTheWay, notWhole⟩⟩

namespace Withdrawn

/-- The folders around the source are there when it is gone. -/
theorem look_encloses
    (withdrawn : Withdrawn home source placed without)
    {folder : Location}
    (encloses : Encloses folder source.location) :
    without.look (home ++ folder) = some .folder := by
  obtain ⟨rest, shape⟩ := encloses.onTheWay
  have rest_ne_nil : rest ≠ [] := by
    rintro rfl
    exact encloses.notWhole (by rw [← shape, List.append_nil])
  obtain ⟨content, wasLeaf⟩ := withdrawn.wasLeaf
  rw [← shape, ← List.append_assoc] at wasLeaf
  refine (withdrawn.replaced.look_of_ne ?_).trans
    (Folder.look_eq_folder_of_look_append rest_ne_nil wasLeaf)
  exact fun same => encloses.notWhole (List.append_cancel_left same)

end Withdrawn

/-- A document was placed, its source withdrawn, and a first part of the folders around removed. -/
structure Transferred
    (root : Text)
    (home : Location)
    (source output : DocumentPath)
    (file : RegularFile)
    (made placed without new : Disk)
    (gone stayed : List Location) : Prop where
  landed : Landed root home output file made placed
  free : made.look (home ++ output.location) = none
  differ : output.location ≠ source.location
  withdrawn : Withdrawn home source placed without
  folders : source.enclosingFolders.map DocumentPath.location = gone ++ stayed
  trimmed : Trimmed home gone without new
  next : LeadsHome new root home → ∀ folder ∈ stayed.head?,
    ∃ name, new.look (home ++ folder ++ [name]) ≠ none

namespace Transferred

variable {file : RegularFile} {new : Disk} {gone stayed : List Location}
  (transferred : Transferred root home source output file made placed without new gone stayed)

include transferred

theorem workingFolder :
    new.workingFolder = made.workingFolder :=
  transferred.trimmed.workingFolder.trans
    (transferred.withdrawn.workingFolder.trans transferred.landed.workingFolder)

theorem staged :
    new.staged = made.staged :=
  transferred.trimmed.staged.trans
    (transferred.withdrawn.staged.trans transferred.landed.staged)

theorem encloses_iff
    {folder : Location} :
    Encloses folder source.location ↔ folder ∈ gone ∨ folder ∈ stayed := by
  rw [encloses_iff_mem transferred.withdrawn.normal, transferred.folders, List.mem_append]

/-- The output stands where it was put. -/
theorem look_output :
    new.look (home ++ output.location) = some (.leaf (.file file)) := by
  have stands : without.look (home ++ output.location) = some (.leaf (.file file)) :=
    (transferred.withdrawn.replaced.look_of_ne fun same =>
      transferred.differ (List.append_cancel_left same)).trans
        transferred.landed.replaced.look_place
  refine (transferred.trimmed.kept _ fun folder isGone same => ?_).trans stands
  have wasFolder := (transferred.trimmed.removed folder isGone).1
  rw [← same] at wasFolder
  cases stands.symm.trans wasFolder

theorem look_source :
    new.look (home ++ source.location) = none := by
  refine (transferred.trimmed.kept _ fun folder isGone same => ?_).trans
    transferred.withdrawn.replaced.look_place
  exact (transferred.encloses_iff.mpr (.inl isGone)).notWhole (List.append_cancel_left same).symm

/-- Nothing else has changed. -/
theorem look_elsewhere
    {place : Location}
    (notOutput : place ≠ home ++ output.location)
    (notSource : place ≠ home ++ source.location)
    (notAround : ∀ folder, Encloses folder source.location → place ≠ home ++ folder) :
    new.look place = made.look place := by
  have sameThere := transferred.trimmed.kept place fun folder isGone =>
    notAround folder (transferred.encloses_iff.mpr (.inl isGone))
  exact sameThere.trans ((transferred.withdrawn.replaced.look_of_ne notSource).trans
    (transferred.landed.replaced.look_of_ne notOutput))

theorem look_stayed
    {folder : Location}
    (isStayed : folder ∈ stayed) :
    new.look (home ++ folder) = some .folder := by
  refine (transferred.trimmed.kept _ fun other isGone same => ?_).trans
    (transferred.withdrawn.look_encloses (transferred.encloses_iff.mpr (.inr isStayed)))
  have distinct := DocumentPath.nodup_enclosingFolders transferred.withdrawn.normal
  rw [transferred.folders] at distinct
  exact List.disjoint_of_nodup_append distinct isGone (List.append_cancel_left same ▸ isStayed)

/-- What is not on the way to the source is kept, and with it the folders it is in. -/
theorem holdsOnly_of_mem_gone
    {folder : Location}
    (isGone : folder ∈ gone) :
    HoldsOnly made home output.location folder source.location := by
  rintro place ⟨below, below_ne_nil, rfl⟩ stands
  by_contra elsewhere
  have still : new.look (home ++ folder ++ below) ≠ none := by
    by_cases atOutput : home ++ folder ++ below = home ++ output.location
    · rw [atOutput, transferred.look_output]
      exact Option.some_ne_none _
    · rw [transferred.look_elsewhere atOutput]
      · exact stands.resolve_right atOutput
      · exact fun same => elsewhere (same ▸ List.prefix_rfl)
      · exact fun other encloses same =>
          elsewhere (same ▸ (List.prefix_append_right_inj home).mpr encloses.onTheWay)
  obtain ⟨kind, found⟩ := Option.ne_none_iff_exists'.mp still
  cases (transferred.trimmed.removed folder isGone).2.symm.trans
    (Folder.look_eq_folder_of_look_append below_ne_nil found)

/-- The innermost folder that stayed holds something that is not on the way to the source. -/
theorem exists_look_of_mem_stayed
    (leads : LeadsHome new root home)
    {folder : Location}
    (isStayed : folder ∈ stayed) :
    ∃ below, below ≠ [] ∧ new.look (home ++ (folder ++ below)) ≠ none ∧
      ∀ other, Encloses other source.location → other ≠ folder ++ below := by
  obtain ⟨first, rest, stayed_eq⟩ := List.exists_cons_of_ne_nil (List.ne_nil_of_mem isStayed)
  obtain ⟨name, holds⟩ := transferred.next leads first (by rw [stayed_eq]; rfl)
  have ordered := DocumentPath.pairwise_enclosingFolders transferred.withdrawn.normal
  rw [transferred.folders, List.pairwise_append, stayed_eq, List.pairwise_cons] at ordered
  obtain ⟨-, ⟨inFirst, -⟩, -⟩ := ordered
  have firstIsWithin {other : Location} (member : other ∈ stayed) : other <+: first := by
    rcases List.mem_cons.mp (stayed_eq ▸ member) with rfl | later
    · exact List.prefix_rfl
    · exact (inFirst other later).1
  obtain ⟨inner, rfl⟩ := firstIsWithin isStayed
  rw [List.append_assoc home, List.append_assoc folder] at holds
  refine ⟨inner ++ [name], by simp, holds, ?_⟩
  rintro other encloses rfl
  rcases transferred.encloses_iff.mp encloses with isGone | staysToo
  · exact holds (transferred.trimmed.removed _ isGone).2
  · have shorter := (firstIsWithin staysToo).length_le
    simp only [List.length_append, List.length_singleton] at shorter
    omega

/-- A folder that held nothing but the source is gone. -/
theorem mem_gone_of_holdsOnly
    (leads : LeadsHome new root home)
    {folder : Location}
    (encloses : Encloses folder source.location)
    (holdsOnly : HoldsOnly made home output.location folder source.location) :
    folder ∈ gone := by
  refine (transferred.encloses_iff.mp encloses).resolve_right fun isStayed => ?_
  obtain ⟨below, below_ne_nil, holds, notAround⟩ :=
    transferred.exists_look_of_mem_stayed leads isStayed
  have notSource : folder ++ below ≠ source.location := by
    intro same
    rw [same] at holds
    exact holds transferred.look_source
  have stands : made.look (home ++ (folder ++ below)) ≠ none ∨
      home ++ (folder ++ below) = home ++ output.location := by
    refine or_iff_not_imp_right.mpr fun notOutput => ?_
    rwa [← transferred.look_elsewhere notOutput (mt List.append_cancel_left notSource)]
    exact fun other around same => notAround other around (List.append_cancel_left same).symm
  have onTheWay := holdsOnly _ ⟨below, below_ne_nil, (List.append_assoc ..).symm⟩ stands
  refine notAround (folder ++ below) ⟨by simp [below_ne_nil], ?_, notSource⟩ rfl
  exact (List.prefix_append_right_inj home).mp onTheWay

/-- What is left behind of a source that moved. -/
theorem vacated
    {old : Disk}
    (paved : Paved (Route.ofText (output.within root)).parent old made) :
    Vacated root source output home old made new where
  free := by
    cases found : old.look (home ++ output.location) with
    | none => rfl
    | some kind => cases transferred.free.symm.trans (paved.look_of_look found)
  gone := transferred.look_source
  kept _ := transferred.look_elsewhere
  folders folder encloses := by
    rcases transferred.encloses_iff.mp encloses with isGone | isStayed
    · exact .inr ⟨(transferred.trimmed.removed folder isGone).2,
        transferred.holdsOnly_of_mem_gone isGone⟩
    · exact .inl (transferred.look_stayed isStayed)
  trimmed leads folder encloses holdsOnly :=
    (transferred.trimmed.removed folder
      (transferred.mem_gone_of_holdsOnly leads encloses holdsOnly)).2

end Transferred

/-- What is placed is no link. -/
theorem Landed.detours
    {file : RegularFile}
    (landed : Landed root home output file made placed)
    {location : Location}
    (detours : placed.Detours home location) :
    made.Detours home location := by
  refine detours.of_links fun place target linked => ?_
  refine (landed.replaced.look_of_ne fun atPlace => ?_).symm.trans linked
  rw [atPlace] at linked
  cases landed.replaced.look_place.symm.trans linked

/-- Where nothing was replaced the root leads home still. -/
theorem Landed.leadsThen
    {file : RegularFile}
    (landed : Landed root home output file made placed)
    (free : made.look (home ++ output.location) = none) :
    LeadsHome placed root home := by
  refine landed.leads.of_kept landed.workingFolder fun place kind found => ?_
  refine (landed.replaced.look_of_ne ?_).trans found
  rintro rfl
  cases free.symm.trans found

/-- When the source is removed as well, so are folders around it. -/
theorem Landed.exists_transferred
    {file : RegularFile}
    (landed : Landed root home output file made placed)
    (free : made.look (home ++ output.location) = none)
    (differ : source.sameComponents output = false)
    (sourceNamed : source.IsNamed)
    (noLink : ¬ made.Detours home source.location)
    (removed : removeFile (Route.ofText (source.within root)) placed = .ok () without)
    {events : List Event}
    {last : Session}
    (cleared : removeEmptyFolders root source.enclosingFolders ⟨without, events⟩ = .ok () last) :
    ∃ gone stayed,
      Transferred root home source output file made placed without last.disk gone stayed := by
  have leadsThen := landed.leadsThen free
  have withdrawn :=
    withdrawn_of_removeFile sourceNamed leadsThen (mt landed.detours noLink) removed
  have onTheWay {folder : DocumentPath} (member : folder ∈ source.enclosingFolders) :=
    DocumentPath.enclosingFolders_onTheWay withdrawn.normal member
  have location_ne : output.location ≠ source.location := fun same => by
    simp [DocumentPath.sameComponents, DocumentPath.location_inj.mp same] at differ
  obtain ⟨gone, stayed, folders, trimmed, next⟩ := removeEmptyFolders_trims landed.legible
    (fun folder member => (onTheWay member).1)
    (fun folder member name isName => withdrawn.fits name ((onTheWay member).2.1.subset isName))
    (DocumentPath.nodup_enclosingFolders withdrawn.normal)
    (leadsThen.homeward.of_replaced withdrawn.replaced withdrawn.workingFolder)
    (fun folder member => withdrawn.look_encloses
      ((encloses_iff_mem withdrawn.normal).mpr (List.mem_map_of_mem member)))
    cleared
  exact ⟨gone, stayed, landed, free, location_ne, withdrawn, folders, trimmed, next⟩

/--
A file that landed was delivered, if nothing but the source and its folders was
touched since.
-/
theorem Landed.delivered
    {content : Text}
    (landed : Landed root home output (storedFile root source content made) made placed)
    {old new : Disk}
    (paved : Paved (Route.ofText (output.within root)).parent old made)
    (workingFolder : new.workingFolder = made.workingFolder)
    (staged : new.staged = made.staged)
    (stands : new.look (home ++ output.location) =
      some (.leaf (.file (storedFile root source content made))))
    (inPlace : source.sameComponents output = true →
      ∀ place, place ≠ home ++ output.location → new.look place = made.look place)
    (moved : source.sameComponents output = false →
      Vacated root source output home old made new) :
    Delivered root source output content home old made new where
  workingFolder := workingFolder.trans paved.workingFolder
  staged := staged.trans paved.staged
  modeKept _ := mode?_of_kept paved.workingFolder fun _ _ => paved.look_of_look
  stored := stands
  around above below shape below_ne_nil := by
    rw [shape, ← List.append_assoc] at stands
    exact Folder.look_eq_folder_of_look_append below_ne_nil stands
  readable leads := landed.readText_of_look leads stands rfl
  inPlace := inPlace
  moved := moved

/-- Storing a document changes its output, what was left of its source, and nothing else. -/
theorem persistDocument_delivers
    {content : Text}
    {session last : Session}
    (sourceNamed : source.IsNamed)
    (outputNamed : output.IsNamed)
    (noLinks : ∀ home, ComesHome session.disk root output home →
      ¬ session.disk.Detours home source.location ∧ ¬ session.disk.Detours home output.location)
    (done : persistDocument root source output content session = .ok () last) :
    ∃ home made, Paved (Route.ofText (output.within root)).parent session.disk made ∧
      LeadsHome made root home ∧
      Delivered root source output content home session.disk made last.disk := by
  obtain ⟨made, paved, stored⟩ := persistDocument_paves root source output content session
  rw [done] at stored
  have noLink {home : Location} (leads : LeadsHome made root home) :
      ¬ made.Detours home source.location ∧ ¬ made.Detours home output.location :=
    (noLinks home ⟨made, paved, leads⟩).imp (mt paved.detours) (mt paved.detours)
  cases stored with
  | inPlace same isStored committed =>
      obtain ⟨home, landed, -⟩ :=
        exists_landed outputNamed (fun _ leads => (noLink leads).2) committed
      rw [isStored] at landed
      refine ⟨home, made, paved, landed.leads, landed.delivered paved landed.workingFolder
        landed.staged landed.replaced.look_place (fun _ _ => landed.replaced.look_of_ne) ?_⟩
      exact fun differ => nomatch same.symm.trans differ
  | moved differ isStored committed removed cleared =>
      obtain ⟨home, landed, free⟩ :=
        exists_landed outputNamed (fun _ leads => (noLink leads).2) committed
      rw [isStored] at landed
      obtain ⟨gone, stayed, transferred⟩ := landed.exists_transferred (free rfl) differ sourceNamed
        (noLink landed.leads).1 removed cleared
      refine ⟨home, made, paved, landed.leads, landed.delivered paved transferred.workingFolder
        transferred.staged transferred.look_output ?_ fun _ => transferred.vacated paved⟩
      exact fun same => nomatch differ.symm.trans same

end Delivering

/-- A root comes home to one place. -/
theorem ComesHome.eq_of_leads
    {disk : Disk}
    {root : Text}
    {output : DocumentPath}
    {home there : Location}
    (comesHome : ComesHome disk root output home)
    (leads : LeadsHome disk root there) :
    home = there := by
  obtain ⟨made, paved, leadsMade⟩ := comesHome
  have leadsThen : LeadsHome made root there :=
    leads.of_kept paved.workingFolder fun _ _ => paved.look_of_look
  exact leadsThen.homeward home leadsMade

/-- A vault in which a link to a document lies two folders deep. -/
private def nestedVault : Folder :=
  .folder (Utf8.encode "a".toList)
    (.folder (Utf8.encode "b".toList)
      (.leaf (Utf8.encode "s.md".toList) (.link "../t.md".toList) .empty)
      (.leaf (Utf8.encode "t.md".toList) (.file ⟨0o640, Utf8.encode "t".toList⟩) .empty))
    .empty

private def unnestedVault : Folder :=
  .folder (Utf8.encode "a".toList)
    (.leaf (Utf8.encode "t.md".toList) (.file ⟨0o640, Utf8.encode "t".toList⟩) .empty)
    (.folder (Utf8.encode "c".toList)
      (.leaf (Utf8.encode "o.md".toList) (.file ⟨0o640, Utf8.encode "x".toList⟩) .empty)
      .empty)

/-- A document that moves to a new folder and leaves an empty one. -/
theorem persistDocument_delivers_nestedVault :
    persistDocument "vault".toList ⟨"a/b/s.md".toList⟩ ⟨"c/o.md".toList⟩ "x".toList
          ⟨diskOf nestedVault, []⟩ =
        .ok () ⟨diskOf unnestedVault, [.folderRemoved ⟨"a/b".toList⟩,
          .renamed ⟨"a/b/s.md".toList⟩ ⟨"c/o.md".toList⟩]⟩ ∧
      ∃ home made, Paved (Route.ofText "vault/c/o.md".toList).parent (diskOf nestedVault) made ∧
        LeadsHome made "vault".toList home ∧
        Delivered "vault".toList ⟨"a/b/s.md".toList⟩ ⟨"c/o.md".toList⟩ "x".toList home
          (diskOf nestedVault) made (diskOf unnestedVault) := by
  have done : persistDocument "vault".toList ⟨"a/b/s.md".toList⟩ ⟨"c/o.md".toList⟩ "x".toList
        ⟨diskOf nestedVault, []⟩ =
      .ok () ⟨diskOf unnestedVault, [.folderRemoved ⟨"a/b".toList⟩,
          .renamed ⟨"a/b/s.md".toList⟩ ⟨"c/o.md".toList⟩]⟩ := by
    decide +kernel
  have leads : LeadsHome (diskOf nestedVault) "vault".toList [Utf8.encode "vault".toList] :=
    leads_iff.mpr ⟨by decide +kernel, by decide⟩
  refine ⟨done, persistDocument_delivers ⟨by decide, by decide, by decide⟩
    ⟨by decide, by decide, by decide⟩ (fun home comesHome => ?_) done⟩
  cases comesHome.eq_of_leads leads
  exact ⟨by decide, by decide⟩

/-- A vault with a link that is read only when there is a folder `d`. -/
private def entangledVault : Folder :=
  .leaf (Utf8.encode "f.md".toList) (.file ⟨0o644, Utf8.encode "f".toList⟩)
    (.folder (Utf8.encode "y".toList)
      (.folder (Utf8.encode "z".toList)
        (.leaf (Utf8.encode "s.md".toList) (.link "../../d/../f.md".toList) .empty)
        .empty)
      .empty)

private def disentangledVault : Folder :=
  .folder (Utf8.encode "d".toList)
    (.leaf (Utf8.encode "o.md".toList) (.file ⟨0o644, Utf8.encode "x".toList⟩) .empty)
    (.leaf (Utf8.encode "f.md".toList) (.file ⟨0o644, Utf8.encode "f".toList⟩)
      (.folder (Utf8.encode "y".toList) .empty .empty))

/--
The folder made for an output gives a source the permission bits of its target,
and a root beyond the folders that are removed is lost with the first of them.
-/
theorem entangledVault_not_delivered :
    LeadsHome (diskOf entangledVault) "vault/y/z/../..".toList [Utf8.encode "vault".toList] ∧
      ¬ (diskOf entangledVault).Detours [Utf8.encode "vault".toList]
        (DocumentPath.location ⟨"y/z/s.md".toList⟩) ∧
      ¬ (diskOf entangledVault).Detours [Utf8.encode "vault".toList]
        (DocumentPath.location ⟨"d/o.md".toList⟩) ∧
      (diskOf entangledVault).mode? (Route.ofText "vault/y/z/../../y/z/s.md".toList) = none ∧
      persistDocument "vault/y/z/../..".toList ⟨"y/z/s.md".toList⟩ ⟨"d/o.md".toList⟩ "x".toList
          ⟨diskOf entangledVault, []⟩ =
        .ok () ⟨diskOf disentangledVault, [.folderRemoved ⟨"y/z".toList⟩,
          .renamed ⟨"y/z/s.md".toList⟩ ⟨"d/o.md".toList⟩]⟩ ∧
      (diskOf disentangledVault).readText (Route.ofText "vault/y/z/../../d/o.md".toList) =
        .error .notFound :=
  ⟨leads_iff.mpr ⟨by decide +kernel, by decide⟩, by decide, by decide, by decide +kernel,
    by decide +kernel, by decide +kernel⟩

end Vault

end NotePublisher
