import NotePublisher.Proofs.Disk.Tree

namespace NotePublisher

/-!
# Reaching folders and changing one place

`Folder.access` goes down to a folder the way the file system does, and says
why a folder cannot be reached. A location is free when nothing on the way to
it stands against a new entry there, that is when the only reason for not
reaching a folder is that there is none yet.

Putting a leaf or an empty folder at a place, and erasing one, changes what
`Folder.look` says of that place and of no other (`Folder.replaced_putLeaf`,
`Folder.replaced_putFolder`, `Folder.replaced_erase`).
-/

/-- Every name is short enough for the file system. -/
def Location.Fits (location : Location) : Prop :=
  ∀ name ∈ location, name.size ≤ Disk.maximalNameSize

theorem Location.Fits.concat
    {above : Location}
    (aboveFits : Location.Fits above)
    {name : Name}
    (fits : name.size ≤ Disk.maximalNameSize) :
    Location.Fits (above ++ [name]) := by
  intro other member
  rcases List.mem_append.mp member with earlier | last
  · exact aboveFits other earlier
  · exact List.mem_singleton.mp last ▸ fits

/-- Whether it is a folder. -/
def Kind.isFolder : Kind → Bool
  | folder => true
  | leaf _ => false

namespace Folder

/-- No symbolic link is anywhere in the folder. -/
def LinkFree (here : Folder) : Prop :=
  ∀ location target, here.look location ≠ some (.leaf (.link target))

/-- Whether no entry is a symbolic link, here and in every folder within. -/
def holdsNoLink : Folder → Bool
  | empty => true
  | leaf _ (.file _) others => holdsNoLink others
  | leaf _ (.link _) _ => false
  | folder _ children others => holdsNoLink children && holdsNoLink others

theorem linkFree_of_holdsNoLink
    {here : Folder}
    (checked : here.holdsNoLink) :
    here.LinkFree := by
  induction here with
  | empty =>
      intro location target
      cases location <;> simp [look, find?]
  | leaf name content others inductionHypothesis =>
      cases content with
      | link target => simp [holdsNoLink] at checked
      | file file =>
          intro location target
          have later := inductionHypothesis checked location target
          cases location with
          | nil => simp
          | cons wanted rest =>
              rw [look_cons, find?]
              by_cases same : name = wanted
              · cases rest <;> simp [same, Entry.look]
              · rwa [if_neg same, ← look_cons]
  | folder name children others childrenHypothesis inductionHypothesis =>
      simp only [holdsNoLink, Bool.and_eq_true] at checked
      intro location target
      have later := inductionHypothesis checked.2 location target
      cases location with
      | nil => simp
      | cons wanted rest =>
          rw [look_cons, find?]
          by_cases same : name = wanted
          · simpa [same, Entry.look] using childrenHypothesis checked.1 rest target
          · rwa [if_neg same, ← look_cons]

theorem folderAt?_append
    (above below : Location)
    (here : Folder) :
    here.folderAt? (above ++ below) = (here.folderAt? above).bind (folderAt? below) := by
  induction above generalizing here with
  | nil =>
      rfl
  | cons name rest inductionHypothesis =>
      rw [List.cons_append, folderAt?, folderAt?]
      cases here.find? name with
      | none => rfl
      | some entry =>
          cases entry with
          | leaf content => rfl
          | folder children => exact inductionHypothesis children

/-- What is below a location is what is in the folder there. -/
theorem look_append
    {above : Location}
    (below : Location)
    {here inside : Folder}
    (leads : here.folderAt? above = some inside) :
    here.look (above ++ below) = inside.look below := by
  induction above generalizing here with
  | nil =>
      cases leads
      rfl
  | cons name rest inductionHypothesis =>
      rw [folderAt?] at leads
      rw [List.cons_append, look_cons]
      cases found : here.find? name with
      | none => simp [found] at leads
      | some entry =>
          cases entry with
          | leaf content => simp [found] at leads
          | folder children =>
              simp only [found] at leads
              exact inductionHypothesis leads

/-- A folder that is seen can be entered. -/
theorem exists_folderAt?_of_look
    {location : Location}
    {here : Folder}
    (found : here.look location = some .folder) :
    ∃ inside, here.folderAt? location = some inside :=
  Option.isSome_iff_exists.mp (look_eq_folder_iff.mp found)

/-- A folder that can be entered is seen. -/
theorem look_eq_folder_of_folderAt?
    {location : Location}
    {here inside : Folder}
    (leads : here.folderAt? location = some inside) :
    here.look location = some .folder :=
  look_eq_folder_iff.mpr (by simp [leads])

/-- Above whatever is somewhere are folders. -/
theorem look_eq_folder_of_look_append
    {above below : Location}
    (below_ne_nil : below ≠ [])
    {here : Folder}
    {kind : Kind}
    (found : here.look (above ++ below) = some kind) :
    here.look above = some .folder := by
  induction above generalizing here with
  | nil =>
      simp
  | cons name rest inductionHypothesis =>
      rw [List.cons_append, look_cons] at found
      rw [look_cons]
      cases entryFound : here.find? name with
      | none => simp [entryFound] at found
      | some entry =>
          simp only [entryFound, Option.bind_some] at found ⊢
          cases entry with
          | leaf content => simp [Entry.look, below_ne_nil] at found
          | folder children => exact inductionHypothesis found

/-- What is in a folder is what the folder lists under the name. -/
theorem look_concat
    {above : Location}
    (name : Name)
    {here inside : Folder}
    (leads : here.folderAt? above = some inside) :
    here.look (above ++ [name]) = (inside.find? name).map Entry.kind := by
  rw [look_append [name] leads, look_cons]
  cases inside.find? name <;> simp

/-- A folder changed below a location, as seen from that location. -/
theorem folderAt?_update_append
    (change : Folder → Folder)
    {above : Location}
    (below : Location)
    {here inside : Folder}
    (leads : here.folderAt? above = some inside) :
    (here.update change (above ++ below)).folderAt? above =
      some (inside.update change below) := by
  induction above generalizing here with
  | nil =>
      cases leads
      rfl
  | cons name rest inductionHypothesis =>
      rw [folderAt?] at leads
      rw [List.cons_append, update]
      cases found : here.find? name with
      | none => simp [found] at leads
      | some entry =>
          cases entry with
          | leaf content => simp [found] at leads
          | folder children =>
              simp only [found] at leads
              simp only [folderAt?, find?_insert, if_pos]
              exact inductionHypothesis leads

/-- A change of what a name stands for, where nothing is below the name before and after. -/
private theorem look_update_at
    {change : Folder → Folder}
    {above : Location}
    {name : Name}
    {changed : Location → Option Kind}
    {here inside : Folder}
    (leads : here.folderAt? above = some inside)
    (changes : ∀ wanted rest, (change inside).look (wanted :: rest) =
      if name = wanted then changed rest else inside.look (wanted :: rest))
    (bare : ∀ rest, rest ≠ [] → changed rest = none)
    (wasBare : ∀ rest, rest ≠ [] → here.look (above ++ name :: rest) = none)
    (location : Location) :
    (here.update change above).look location =
      if location = above ++ [name] then changed [] else here.look location := by
  by_cases isBelow : above <+: location
  · obtain ⟨below, rfl⟩ := isBelow
    rw [look_update_append _ below leads]
    simp only [List.append_cancel_left_eq]
    cases below with
    | nil =>
        simpa using (look_eq_folder_of_folderAt? leads).symm
    | cons first rest =>
        rw [changes]
        by_cases same : name = first
        · subst same
          cases rest with
          | nil => simp
          | cons second others => simp [bare, wasBare]
        · rw [if_neg same, look_append _ leads]
          simp [Ne.symm same]
  · rw [look_update_of_not_below _ here isBelow, if_neg]
    rintro rfl
    exact isBelow (List.prefix_append above [name])

/-- Nothing is below a place without a folder. -/
theorem look_below_eq_none
    {above : Location}
    {here : Folder}
    (noFolder : here.look above ≠ some .folder)
    {below : Location}
    (below_ne_nil : below ≠ []) :
    here.look (above ++ below) = none := by
  cases found : here.look (above ++ below) with
  | none => rfl
  | some kind => exact absurd (look_eq_folder_of_look_append below_ne_nil found) noFolder

/-- Only what is at one place is replaced. -/
def Replaced
    (place : Location)
    (kind : Option Kind)
    (old new : Folder) :
    Prop :=
  ∀ location, new.look location = if location = place then kind else old.look location

namespace Replaced

variable {place : Location} {kind : Option Kind} {old new : Folder}

/-- The replaced place holds what was put there. -/
theorem look_place
    (replaced : Replaced place kind old new) :
    new.look place = kind := by
  rw [replaced, if_pos rfl]

theorem look_of_ne
    (replaced : Replaced place kind old new)
    {location : Location}
    (different : location ≠ place) :
    new.look location = old.look location := by
  rw [replaced, if_neg different]

theorem linkFree
    (replaced : Replaced place kind old new)
    (noLink : ∀ target, kind ≠ some (.leaf (.link target)))
    (wasFree : old.LinkFree) :
    new.LinkFree := by
  intro location target linked
  by_cases atPlace : location = place
  · subst atPlace
    exact noLink target (replaced.look_place ▸ linked)
  · exact wasFree location target (replaced.look_of_ne atPlace ▸ linked)

/-- Where no folder is replaced, every folder is kept. -/
theorem look_folder
    (replaced : Replaced place kind old new)
    (notFolder : old.look place ≠ some .folder)
    {location : Location}
    (holdsFolder : old.look location = some .folder) :
    new.look location = some .folder := by
  rw [replaced.look_of_ne, holdsFolder]
  rintro rfl
  exact notFolder holdsFolder

/-- Removing something takes away at most the folder that is removed. -/
theorem look_folder_or_none
    (replaced : Replaced place none old new)
    {location : Location}
    (holdsFolder : old.look location = some .folder) :
    new.look location = some .folder ∨ new.look location = none := by
  by_cases atPlace : location = place
  · exact .inr (atPlace ▸ replaced.look_place)
  · exact .inl ((replaced.look_of_ne atPlace).trans holdsFolder)

end Replaced

/-- A leaf put where no folder is changes that place only. -/
theorem replaced_putLeaf
    {above : Location}
    {name : Name}
    {here inside : Folder}
    (leads : here.folderAt? above = some inside)
    (noFolder : here.look (above ++ [name]) ≠ some .folder)
    (content : Leaf) :
    Replaced (above ++ [name]) (some (.leaf content)) here
      (here.update (·.insert name (.leaf content)) above) := by
  refine look_update_at leads
    (fun wanted rest => look_insert name wanted (.leaf content) rest inside) ?_ ?_
  · intro rest rest_ne_nil
    simp [Entry.look, rest_ne_nil]
  · intro rest rest_ne_nil
    simpa using look_below_eq_none noFolder rest_ne_nil

/-- An empty folder put where nothing is changes that place only. -/
theorem replaced_putFolder
    {above : Location}
    {name : Name}
    {here inside : Folder}
    (leads : here.folderAt? above = some inside)
    (missing : here.look (above ++ [name]) = none) :
    Replaced (above ++ [name]) (some .folder) here
      (here.update (·.insert name (.folder .empty)) above) := by
  rw [← look_nil .empty]
  refine look_update_at leads
    (fun wanted rest => look_insert name wanted (.folder .empty) rest inside) ?_ ?_
  · intro rest rest_ne_nil
    cases rest with
    | nil => exact absurd rfl rest_ne_nil
    | cons => rfl
  · intro rest rest_ne_nil
    have noFolder : here.look (above ++ [name]) ≠ some .folder := by simp [missing]
    simpa using look_below_eq_none noFolder rest_ne_nil

/-- Erasing what has nothing below it changes its place only. -/
theorem replaced_erase
    {above : Location}
    {name : Name}
    {here inside : Folder}
    (leads : here.folderAt? above = some inside)
    (bare : ∀ rest, rest ≠ [] → here.look (above ++ name :: rest) = none) :
    Replaced (above ++ [name]) none here (here.update (·.erase name) above) :=
  look_update_at leads (fun wanted rest => look_erase name wanted rest inside)
    (fun _ _ => rfl) bare

/-- Erasing a file or link removes it and nothing else. -/
theorem replaced_eraseLeaf
    {above : Location}
    {name : Name}
    {here inside : Folder}
    (leads : here.folderAt? above = some inside)
    {content : Leaf}
    (found : here.look (above ++ [name]) = some (.leaf content)) :
    Replaced (above ++ [name]) none here (here.update (·.erase name) above) := by
  apply replaced_erase leads
  intro rest rest_ne_nil
  have noFolder : here.look (above ++ [name]) ≠ some .folder := by simp [found]
  simpa using look_below_eq_none noFolder rest_ne_nil

/-- Erasing an empty folder removes it and nothing else. -/
theorem replaced_eraseEmpty
    {above : Location}
    {name : Name}
    {here inside : Folder}
    (leads : here.folderAt? above = some inside)
    (bare : here.folderAt? (above ++ [name]) = some .empty) :
    Replaced (above ++ [name]) none here (here.update (·.erase name) above) := by
  apply replaced_erase leads
  intro rest rest_ne_nil
  have below := look_append rest bare
  rw [List.append_assoc, List.singleton_append] at below
  rw [below]
  cases rest with
  | nil => exact absurd rfl rest_ne_nil
  | cons => rfl

/-- The folder at a location, or why the file system does not reach one. -/
def access :
    Location →
    Folder →
    Except DiskError Folder
  | [], here => .ok here
  | name :: rest, here =>
      if Disk.maximalNameSize < name.size then
        .error .nameTooLong
      else
        match here.find? name with
        | none => .error .notFound
        | some (.leaf _) => .error .notADirectory
        | some (.folder children) => access rest children

theorem access_append
    (above below : Location)
    (here : Folder) :
    here.access (above ++ below) =
      match here.access above with
      | .ok inside => inside.access below
      | .error cause => .error cause := by
  induction above generalizing here with
  | nil =>
      rfl
  | cons name rest inductionHypothesis =>
      rw [List.cons_append, access, access]
      by_cases long : Disk.maximalNameSize < name.size
      · simp [long]
      · simp only [long, if_false]
        cases here.find? name with
        | none => rfl
        | some entry =>
            cases entry with
            | leaf content => rfl
            | folder children => exact inductionHypothesis children

/-- Steps succeed where the folders are and no name is too long. -/
theorem access_eq_ok_iff
    {location : Location}
    {here inside : Folder} :
    here.access location = .ok inside ↔
      Location.Fits location ∧ here.folderAt? location = some inside := by
  induction location generalizing here with
  | nil =>
      simp [access, folderAt?, Location.Fits]
  | cons name rest inductionHypothesis =>
      rw [access, folderAt?]
      by_cases long : Disk.maximalNameSize < name.size
      · simp [long, Location.Fits, Nat.not_le.mpr long]
      · simp only [long, if_false, Location.Fits, List.forall_mem_cons,
          Nat.not_lt.mp long, true_and]
        cases here.find? name with
        | none => simp
        | some entry =>
            cases entry with
            | leaf content => simp
            | folder children => exact inductionHypothesis

/-- A name that can be entered in the folder at a location. -/
structure Reaches
    (here : Folder)
    (above : Location)
    (name : Name)
    (inside : Folder) : Prop where
  plain : ∀ other ∈ above ++ [name], other.IsPlain
  fits : name.size ≤ Disk.maximalNameSize
  accessed : here.access above = .ok inside

theorem Reaches.leads
    {here inside : Folder}
    {above : Location}
    {name : Name}
    (reaches : here.Reaches above name inside) :
    here.folderAt? above = some inside :=
  (access_eq_ok_iff.mp reaches.accessed).2

theorem Reaches.valid
    {here inside : Folder}
    {above : Location}
    {name : Name}
    (reaches : here.Reaches above name inside) :
    name.IsValid :=
  ⟨reaches.plain name (by simp), reaches.fits⟩

/-- The folder around a place that is taken is reached by names that fit. -/
theorem WellFormed.reaches
    {here : Folder}
    (wellFormed : here.WellFormed)
    {above : Location}
    {name : Name}
    {kind : Kind}
    (found : here.look (above ++ [name]) = some kind) :
    ∃ inside, here.Reaches above name inside := by
  have valid := wellFormed.valid_of_look found
  obtain ⟨inside, leads⟩ :=
    exists_folderAt?_of_look (look_eq_folder_of_look_append (List.cons_ne_nil name []) found)
  refine ⟨inside, fun other member => (valid other member).plain, (valid name (by simp)).fits, ?_⟩
  exact access_eq_ok_iff.mpr
    ⟨fun other member => (valid other (List.mem_append_left _ member)).fits, leads⟩

/-- A new entry can be made at the location, as far as what is on the way to it goes. -/
def IsFree (here : Folder) (location : Location) : Prop :=
  here.access location = .error .notFound

theorem IsFree.append
    {here : Folder}
    {above : Location}
    (free : here.IsFree above)
    (below : Location) :
    here.IsFree (above ++ below) := by
  rw [IsFree, access_append, free]

/-- Nothing is at a free place. -/
theorem look_eq_none_of_isFree
    {here : Folder}
    {location : Location}
    (free : here.IsFree location) :
    here.look location = none := by
  unfold IsFree at free
  induction location generalizing here with
  | nil =>
      cases free
  | cons name rest inductionHypothesis =>
      rw [access] at free
      rw [look_cons]
      by_cases long : Disk.maximalNameSize < name.size
      · simp [long] at free
      · simp only [long, if_false] at free
        cases found : here.find? name with
        | none => rfl
        | some entry =>
            cases entry with
            | leaf content => simp [found] at free
            | folder children =>
                simp only [found] at free
                exact inductionHypothesis free

/-- What stands against a new entry goes on doing so while it is kept. -/
theorem not_isFree_of_kept
    {old new : Folder}
    {location : Location}
    (kept : ∀ place, place <+: location → old.look place ≠ none →
      (new.look place).map Kind.isFolder = (old.look place).map Kind.isFolder)
    (taken : ¬ old.IsFree location) :
    ¬ new.IsFree location := by
  unfold IsFree at *
  induction location generalizing old new with
  | nil =>
      simp [access]
  | cons name rest inductionHypothesis =>
      rw [access] at taken ⊢
      by_cases long : Disk.maximalNameSize < name.size
      · simp [long]
      · simp only [long, if_false] at taken ⊢
        have keptHere := kept [name] (by simp)
        rw [look_cons, look_cons] at keptHere
        cases oldFound : old.find? name with
        | none => simp [oldFound] at taken
        | some oldEntry =>
            cases newFound : new.find? name with
            | none => simp [oldFound, newFound] at keptHere
            | some newEntry =>
                simp only [oldFound, newFound, Option.bind_some, Entry.look_nil] at keptHere
                cases oldEntry with
                | leaf content =>
                    cases newEntry with
                    | leaf _ => simp
                    | folder _ => simp [Entry.kind, Kind.isFolder] at keptHere
                | folder oldChildren =>
                    cases newEntry with
                    | leaf _ => simp [Entry.kind, Kind.isFolder] at keptHere
                    | folder newChildren =>
                        simp only [oldFound] at taken
                        refine inductionHypothesis ?_ taken
                        intro place onTheWay present
                        have below := kept (name :: place)
                          (List.cons_prefix_cons.mpr ⟨rfl, onTheWay⟩)
                        rw [look_cons, look_cons, oldFound, newFound] at below
                        exact below present

/-- One folder has become another by new folders on the way to a location. -/
def Grown
    (location : Location)
    (old new : Folder) :
    Prop :=
  ∀ place, new.look place = old.look place ∨
    (old.look place = none ∧ new.look place = some .folder ∧ place <+: location)

namespace Grown

variable {location : Location} {old new : Folder}

theorem refl (here : Folder) :
    Grown location here here :=
  fun _ => .inl rfl

theorem trans
    {last : Folder}
    (left : Grown location old new)
    (right : Grown location new last) :
    Grown location old last := by
  intro place
  rcases left place with sameLeft | ⟨missing, made, onTheWay⟩
  · rcases right place with sameRight | ⟨missing, made, onTheWay⟩
    · exact .inl (sameRight.trans sameLeft)
    · exact .inr ⟨sameLeft ▸ missing, made, onTheWay⟩
  · rcases right place with sameRight | ⟨missingThen, -, -⟩
    · exact .inr ⟨missing, sameRight.trans made, onTheWay⟩
    · simp [made] at missingThen

theorem mono
    {longer : Location}
    (grown : Grown location old new)
    (onTheWay : location <+: longer) :
    Grown longer old new := by
  intro place
  rcases grown place with same | ⟨missing, made, shorter⟩
  · exact .inl same
  · exact .inr ⟨missing, made, shorter.trans onTheWay⟩

/-- Making folders takes nothing away. -/
theorem look_of_look
    (grown : Grown location old new)
    {place : Location}
    {kind : Kind}
    (found : old.look place = some kind) :
    new.look place = some kind := by
  rcases grown place with same | ⟨missing, -, -⟩
  · exact same.trans found
  · simp [found] at missing

/-- What is free after folders were made was free before. -/
theorem isFree
    (grown : Grown location old new)
    {place : Location}
    (free : new.IsFree place) :
    old.IsFree place := by
  by_contra taken
  apply not_isFree_of_kept ?_ taken free
  intro above _ present
  obtain ⟨kind, found⟩ := Option.ne_none_iff_exists'.mp present
  rw [grown.look_of_look found, found]

theorem look_leaf
    (grown : Grown location old new)
    {place : Location}
    {content : Leaf}
    (found : new.look place = some (.leaf content)) :
    old.look place = some (.leaf content) := by
  rcases grown place with same | ⟨-, made, -⟩
  · exact same ▸ found
  · simp [found] at made

theorem linkFree
    (grown : Grown location old new)
    (wasFree : old.LinkFree) :
    new.LinkFree :=
  fun place target linked => wasFree place target (grown.look_leaf linked)

end Grown

end Folder

end NotePublisher
