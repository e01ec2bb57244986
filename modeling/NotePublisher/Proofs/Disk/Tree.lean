import NotePublisher.Disk.Basic
import Mathlib.Data.List.Nodup

namespace NotePublisher

/-!
# Well-formed folders

The names of a well-formed folder are ones that the file system accepts, they
ascend, and the same holds in every folder within. Every change of an entry
keeps a folder well formed, and putting an entry where it already is changes
nothing (`Folder.insert_eq_self`, `Folder.update_eq_self`). `Folder.leaves`
lists the files and links of a folder, and `Folder.files` its regular files.
-/

/-- What is found in a list keeps the order of what it is found for. -/
theorem map_filterMap_sublist
    {α β γ : Type}
    {find : α → Option β}
    {ofItem : α → γ}
    {ofFound : β → γ}
    {items : List α}
    (same : ∀ item ∈ items, ∀ found, find item = some found → ofFound found = ofItem item) :
    ((items.filterMap find).map ofFound).Sublist (items.map ofItem) := by
  induction items with
  | nil =>
      exact .slnil
  | cons item others inductionHypothesis =>
      obtain ⟨sameHere, sameThere⟩ := List.forall_mem_cons.mp same
      have later := inductionHypothesis sameThere
      cases here : find item with
      | none => simpa [here] using later.cons (ofItem item)
      | some found => simpa [here, sameHere found here] using later

namespace Name

/-- A name that is one piece of a path and leads neither nowhere nor upwards. -/
structure IsPlain (name : Name) : Prop where
  nonempty : name ≠ Utf8.encode []
  noZero : 0 ∉ name.data.toList
  noSlash : 47 ∉ name.data.toList
  notStay : name ≠ Utf8.encode ['.']
  notUp : name ≠ Utf8.encode ['.', '.']

instance (name : Name) : Decidable name.IsPlain :=
  decidable_of_iff
    (name ≠ Utf8.encode [] ∧ 0 ∉ name.data.toList ∧ 47 ∉ name.data.toList ∧
      name ≠ Utf8.encode ['.'] ∧ name ≠ Utf8.encode ['.', '.'])
    ⟨fun ⟨nonempty, noZero, noSlash, notStay, notUp⟩ =>
        ⟨nonempty, noZero, noSlash, notStay, notUp⟩,
      fun plain =>
        ⟨plain.nonempty, plain.noZero, plain.noSlash, plain.notStay, plain.notUp⟩⟩

/-- A name that an entry of a folder may have. -/
structure IsValid (name : Name) : Prop where
  plain : name.IsPlain
  fits : name.size ≤ Disk.maximalNameSize

instance (name : Name) : Decidable name.IsValid :=
  decidable_of_iff (name.IsPlain ∧ name.size ≤ Disk.maximalNameSize)
    ⟨fun ⟨plain, fits⟩ => ⟨plain, fits⟩, fun valid => ⟨valid.plain, valid.fits⟩⟩

end Name

namespace Folder

/-- The names of the entries of a folder. -/
def names : Folder → List Name
  | empty => []
  | leaf name _ others => name :: names others
  | folder name _ others => name :: names others

/-- The names are valid and ascend, here and in every folder within. -/
def WellFormed : Folder → Prop
  | empty => True
  | leaf name _ others =>
      name.IsValid ∧ (∀ other ∈ others.names, byteOrder name other = .lt) ∧
        WellFormed others
  | folder name children others =>
      name.IsValid ∧ (∀ other ∈ others.names, byteOrder name other = .lt) ∧
        WellFormed children ∧ WellFormed others

private def decideWellFormed : (here : Folder) → Decidable here.WellFormed
  | empty => .isTrue trivial
  | leaf _ _ others =>
      have := decideWellFormed others
      inferInstanceAs (Decidable (_ ∧ _ ∧ _))
  | folder _ children others =>
      have := decideWellFormed children
      have := decideWellFormed others
      inferInstanceAs (Decidable (_ ∧ _ ∧ _ ∧ _))

instance (here : Folder) : Decidable here.WellFormed :=
  decideWellFormed here

end Folder

namespace Entry

/-- What is within an entry is well formed. -/
def WellFormed : Entry → Prop
  | leaf _ => True
  | folder children => children.WellFormed

/-- What the entry itself is. -/
def kind : Entry → Kind
  | leaf content => .leaf content
  | folder _ => .folder

@[simp] theorem look_nil (entry : Entry) :
    entry.look [] = some entry.kind := by
  cases entry <;> simp [look, kind]

end Entry

namespace Folder

theorem names_cons
    (name : Name)
    (entry : Entry)
    (others : Folder) :
    (cons name entry others).names = name :: others.names := by
  cases entry <;> rfl

/-- A folder lists its names in ascending order. -/
theorem wellFormed_cons_iff
    {name : Name}
    {entry : Entry}
    {others : Folder} :
    (cons name entry others).WellFormed ↔
      name.IsValid ∧ (∀ other ∈ others.names, byteOrder name other = .lt) ∧
        entry.WellFormed ∧ others.WellFormed := by
  cases entry <;> simp [cons, WellFormed, Entry.WellFormed]

/-- A folder without entries, or one with a first entry and others. -/
@[elab_as_elim]
theorem consInduction
    {motive : Folder → Prop}
    (empty : motive .empty)
    (cons : ∀ name entry others, motive others → motive (.cons name entry others))
    (here : Folder) :
    motive here := by
  induction here with
  | empty =>
      exact empty
  | leaf name content others inductionHypothesis =>
      exact cons name (.leaf content) others inductionHypothesis
  | folder name children others _ inductionHypothesis =>
      exact cons name (.folder children) others inductionHypothesis

theorem insert_cons
    (name first : Name)
    (entry firstEntry : Entry)
    (others : Folder) :
    (cons first firstEntry others).insert name entry =
      match byteOrder name first with
      | .lt => cons name entry (cons first firstEntry others)
      | .eq => cons name entry others
      | .gt => cons first firstEntry (others.insert name entry) := by
  cases firstEntry <;> rfl

theorem erase_cons
    (unwanted first : Name)
    (firstEntry : Entry)
    (others : Folder) :
    (cons first firstEntry others).erase unwanted =
      if first = unwanted then
        others.erase unwanted
      else
        cons first firstEntry (others.erase unwanted) := by
  cases firstEntry <;> rfl

/-- What is found under a name is listed. -/
theorem mem_names_of_find?
    {name : Name}
    {entry : Entry}
    {here : Folder}
    (found : here.find? name = some entry) :
    name ∈ here.names := by
  induction here using consInduction with
  | empty =>
      cases found
  | cons first firstEntry others inductionHypothesis =>
      rw [names_cons]
      rw [find?_cons] at found
      by_cases same : first = name
      · exact List.mem_cons.mpr (.inl same.symm)
      · rw [if_neg same] at found
        exact List.mem_cons_of_mem first (inductionHypothesis found)

/-- Inserting adds one name. -/
theorem mem_names_insert_iff
    {name other : Name}
    {entry : Entry}
    {here : Folder} :
    other ∈ (here.insert name entry).names ↔ other = name ∨ other ∈ here.names := by
  induction here using consInduction with
  | empty =>
      simp [insert, names_cons]
  | cons first firstEntry others inductionHypothesis =>
      rw [insert_cons]
      cases compared : byteOrder name first with
      | lt => simp [names_cons]
      | eq => simp [names_cons, byteOrder_eq_iff.mp compared]
      | gt =>
          simp only [names_cons, List.mem_cons, inductionHypothesis]
          tauto

/-- Erasing adds no name. -/
theorem mem_names_of_mem_names_erase
    {unwanted other : Name}
    {here : Folder}
    (member : other ∈ (here.erase unwanted).names) :
    other ∈ here.names := by
  induction here using consInduction with
  | empty =>
      exact member
  | cons first firstEntry others inductionHypothesis =>
      rw [erase_cons] at member
      rw [names_cons]
      by_cases same : first = unwanted
      · rw [if_pos same] at member
        exact List.mem_cons_of_mem first (inductionHypothesis member)
      · rw [if_neg same, names_cons, List.mem_cons] at member
        exact List.mem_cons.mpr (member.imp_right inductionHypothesis)

namespace WellFormed

theorem find?
    {here : Folder}
    (wellFormed : here.WellFormed)
    {name : Name}
    {entry : Entry}
    (found : here.find? name = some entry) :
    name.IsValid ∧ entry.WellFormed := by
  induction here using consInduction with
  | empty =>
      cases found
  | cons first firstEntry others inductionHypothesis =>
      obtain ⟨valid, -, entryWellFormed, othersWellFormed⟩ := wellFormed_cons_iff.mp wellFormed
      rw [find?_cons] at found
      by_cases same : first = name
      · rw [if_pos same, Option.some.injEq] at found
        exact ⟨same ▸ valid, found ▸ entryWellFormed⟩
      · rw [if_neg same] at found
        exact inductionHypothesis othersWellFormed found

/-- Inserting under a valid name keeps a folder well-formed. -/
theorem insert
    {here : Folder}
    (wellFormed : here.WellFormed)
    {name : Name}
    (valid : name.IsValid)
    {entry : Entry}
    (entryWellFormed : entry.WellFormed) :
    (here.insert name entry).WellFormed := by
  induction here using consInduction with
  | empty =>
      exact wellFormed_cons_iff.mpr ⟨valid, by simp [names], entryWellFormed, wellFormed⟩
  | cons first firstEntry others inductionHypothesis =>
      have parts := wellFormed_cons_iff.mp wellFormed
      obtain ⟨firstValid, ascending, firstWellFormed, othersWellFormed⟩ := parts
      rw [insert_cons]
      cases compared : byteOrder name first with
      | lt =>
          refine wellFormed_cons_iff.mpr ⟨valid, ?_, entryWellFormed, wellFormed⟩
          intro other member
          rcases List.mem_cons.mp (names_cons .. ▸ member) with rfl | later
          · exact compared
          · exact Std.TransCmp.lt_trans compared (ascending other later)
      | eq =>
          have same := byteOrder_eq_iff.mp compared
          exact wellFormed_cons_iff.mpr
            ⟨valid, same ▸ ascending, entryWellFormed, othersWellFormed⟩
      | gt =>
          refine wellFormed_cons_iff.mpr
            ⟨firstValid, ?_, firstWellFormed, inductionHypothesis othersWellFormed⟩
          intro other member
          rcases mem_names_insert_iff.mp member with rfl | later
          · exact Std.OrientedCmp.gt_iff_lt.mp compared
          · exact ascending other later

theorem insertLeaf
    {here : Folder}
    (wellFormed : here.WellFormed)
    {name : Name}
    (valid : name.IsValid)
    (content : Leaf) :
    (here.insert name (.leaf content)).WellFormed :=
  wellFormed.insert valid (show Entry.WellFormed (.leaf content) from trivial)

theorem erase
    {here : Folder}
    (wellFormed : here.WellFormed)
    (unwanted : Name) :
    (here.erase unwanted).WellFormed := by
  induction here using consInduction with
  | empty =>
      exact wellFormed
  | cons first firstEntry others inductionHypothesis =>
      obtain ⟨valid, ascending, firstWellFormed, othersWellFormed⟩ :=
        wellFormed_cons_iff.mp wellFormed
      have shorter := inductionHypothesis othersWellFormed
      rw [erase_cons]
      by_cases same : first = unwanted
      · rwa [if_pos same]
      · rw [if_neg same]
        exact wellFormed_cons_iff.mpr
          ⟨valid, fun other member => ascending other (mem_names_of_mem_names_erase member),
            firstWellFormed, shorter⟩

theorem folderAt?
    {here : Folder}
    (wellFormed : here.WellFormed)
    {location : Location}
    {inside : Folder}
    (leads : here.folderAt? location = some inside) :
    inside.WellFormed := by
  induction location generalizing here with
  | nil =>
      cases leads
      exact wellFormed
  | cons name rest inductionHypothesis =>
      rw [Folder.folderAt?] at leads
      cases found : here.find? name with
      | none => simp [found] at leads
      | some entry =>
          cases entry with
          | leaf content => simp [found] at leads
          | folder children =>
              simp only [found] at leads
              exact inductionHypothesis (wellFormed.find? found).2 leads

/-- A change keeps a folder well formed if it keeps the folder it is made in well formed. -/
theorem update
    {here : Folder}
    (wellFormed : here.WellFormed)
    {change : Folder → Folder}
    {location : Location}
    (kept : ∀ inside : Folder, inside.WellFormed → (change inside).WellFormed) :
    (here.update change location).WellFormed := by
  induction location generalizing here with
  | nil =>
      exact kept here wellFormed
  | cons name rest inductionHypothesis =>
      rw [Folder.update]
      cases found : here.find? name with
      | none => exact wellFormed
      | some entry =>
          cases entry with
          | leaf content => exact wellFormed
          | folder children =>
              obtain ⟨valid, childrenWellFormed⟩ := wellFormed.find? found
              exact wellFormed.insert valid (inductionHypothesis childrenWellFormed)

/-- Whatever is somewhere in a well-formed folder is reached by valid names. -/
theorem valid_of_look
    {here : Folder}
    (wellFormed : here.WellFormed)
    {location : Location}
    {kind : Kind}
    (found : here.look location = some kind) :
    ∀ name ∈ location, name.IsValid := by
  induction location generalizing here with
  | nil =>
      simp
  | cons first rest inductionHypothesis =>
      rw [look_cons] at found
      cases entryFound : here.find? first with
      | none => simp [entryFound] at found
      | some entry =>
          obtain ⟨valid, entryWellFormed⟩ := wellFormed.find? entryFound
          simp only [entryFound, Option.bind_some] at found
          have restValid : ∀ name ∈ rest, name.IsValid := by
            cases entry with
            | leaf content =>
                cases rest with
                | nil => simp
                | cons => simp [Entry.look] at found
            | folder children => exact inductionHypothesis entryWellFormed found
          intro name member
          rcases List.mem_cons.mp member with rfl | later
          · exact valid
          · exact restValid name later

end WellFormed

/-- Putting an entry where it already is changes nothing. -/
theorem insert_eq_self
    {here : Folder}
    (wellFormed : here.WellFormed)
    {name : Name}
    {entry : Entry}
    (found : here.find? name = some entry) :
    here.insert name entry = here := by
  induction here using consInduction with
  | empty =>
      cases found
  | cons first firstEntry others inductionHypothesis =>
      obtain ⟨-, ascending, -, othersWellFormed⟩ := wellFormed_cons_iff.mp wellFormed
      rw [find?_cons] at found
      rw [insert_cons]
      by_cases same : first = name
      · rw [if_pos same, Option.some.injEq] at found
        subst same found
        rw [byteOrder_eq_iff.mpr rfl]
      · rw [if_neg same] at found
        have later := ascending name (mem_names_of_find? found)
        rw [Std.OrientedCmp.gt_iff_lt.mpr later]
        exact congrArg (cons first firstEntry) (inductionHypothesis othersWellFormed found)

/-- A change that leaves a folder as it is leaves all around it as it is. -/
theorem update_eq_self
    {here : Folder}
    (wellFormed : here.WellFormed)
    {change : Folder → Folder}
    {location : Location}
    {inside : Folder}
    (leads : here.folderAt? location = some inside)
    (unchanged : change inside = inside) :
    here.update change location = here := by
  induction location generalizing here with
  | nil =>
      cases leads
      exact unchanged
  | cons name rest inductionHypothesis =>
      rw [folderAt?] at leads
      rw [update]
      cases found : here.find? name with
      | none => rfl
      | some entry =>
          cases entry with
          | leaf content => rfl
          | folder children =>
              simp only [found] at leads
              have same := inductionHypothesis (wellFormed.find? found).2 leads
              simp only [same]
              exact insert_eq_self wellFormed found

/-- The files and links of a folder and of the folders within. -/
def leaves : Folder → List (Location × Leaf)
  | empty => []
  | leaf name content others => ([name], content) :: leaves others
  | folder name children others =>
      (leaves children).map (fun (location, content) => (name :: location, content)) ++
        leaves others

theorem exists_name_of_mem_leaves
    {here : Folder}
    {location : Location}
    {content : Leaf}
    (member : (location, content) ∈ here.leaves) :
    ∃ name ∈ here.names, ∃ rest, location = name :: rest := by
  induction here generalizing location with
  | empty =>
      cases member
  | leaf name first others inductionHypothesis =>
      rcases List.mem_cons.mp member with same | later
      · cases same
        exact ⟨name, by simp [names], [], rfl⟩
      · obtain ⟨other, named, rest, shape⟩ := inductionHypothesis later
        exact ⟨other, List.mem_cons_of_mem name named, rest, shape⟩
  | folder name children others _ inductionHypothesis =>
      rcases List.mem_append.mp member with inner | later
      · obtain ⟨⟨rest, found⟩, -, same⟩ := List.mem_map.mp inner
        cases same
        exact ⟨name, by simp [names], rest, rfl⟩
      · obtain ⟨other, named, rest, shape⟩ := inductionHypothesis later
        exact ⟨other, List.mem_cons_of_mem name named, rest, shape⟩

/-- Names that come later are not the first name of any of them. -/
private theorem not_mem_leaves_of_ascending
    {name : Name}
    {others : Folder}
    (ascending : ∀ other ∈ others.names, byteOrder name other = .lt)
    (rest : Location)
    (content : Leaf) :
    (name :: rest, content) ∉ others.leaves := by
  intro member
  obtain ⟨other, named, _, shape⟩ := exists_name_of_mem_leaves member
  cases shape
  have less := ascending name named
  rw [byteOrder_eq_iff.mpr rfl] at less
  cases less

/-- The listed files and links are those that `look` finds. -/
theorem mem_leaves_iff
    {here : Folder}
    (wellFormed : here.WellFormed)
    {location : Location}
    {content : Leaf} :
    (location, content) ∈ here.leaves ↔ here.look location = some (.leaf content) := by
  induction here generalizing location with
  | empty =>
      cases location <;> simp [leaves, look, find?]
  | leaf name first others inductionHypothesis =>
      obtain ⟨-, ascending, othersWellFormed⟩ := wellFormed
      have later := @inductionHypothesis othersWellFormed
      cases location with
      | nil =>
          have missing : ([], content) ∉ others.leaves := by
            rw [later]
            simp
          simp [leaves, missing]
      | cons wanted rest =>
          rw [look_cons, find?]
          by_cases same : name = wanted
          · subst same
            have missing := not_mem_leaves_of_ascending ascending rest content
            cases rest <;> simp [leaves, missing, Entry.look, eq_comm]
          · rw [if_neg same, ← look_cons, ← later]
            simp [leaves, Ne.symm same]
  | folder name children others childrenHypothesis inductionHypothesis =>
      obtain ⟨-, ascending, childrenWellFormed, othersWellFormed⟩ := wellFormed
      have later := @inductionHypothesis othersWellFormed
      cases location with
      | nil =>
          have missing : ([], content) ∉ others.leaves := by
            rw [later]
            simp
          simp [leaves, missing]
      | cons wanted rest =>
          rw [look_cons, find?]
          by_cases same : name = wanted
          · subst same
            have missing := not_mem_leaves_of_ascending ascending rest content
            simp [leaves, missing, Entry.look, childrenHypothesis childrenWellFormed]
          · rw [if_neg same, ← look_cons, ← later]
            simp [leaves, same]

/-- No file or link is listed twice. -/
theorem nodup_leaves
    {here : Folder}
    (wellFormed : here.WellFormed) :
    (here.leaves.map Prod.fst).Nodup := by
  induction here with
  | empty =>
      exact List.nodup_nil
  | leaf name first others inductionHypothesis =>
      obtain ⟨-, ascending, othersWellFormed⟩ := wellFormed
      have missing := not_mem_leaves_of_ascending ascending []
      simp only [leaves, List.map_cons, List.nodup_cons]
      refine ⟨?_, inductionHypothesis othersWellFormed⟩
      intro repeated
      obtain ⟨⟨location, content⟩, member, same⟩ := List.mem_map.mp repeated
      cases same
      exact missing content member
  | folder name children others childrenHypothesis inductionHypothesis =>
      obtain ⟨-, ascending, childrenWellFormed, othersWellFormed⟩ := wellFormed
      have inner := childrenHypothesis childrenWellFormed
      have below :
          ((children.leaves.map fun (location, content) => (name :: location, content)).map
            Prod.fst) = (children.leaves.map Prod.fst).map (name :: ·) := by
        simp [List.map_map, Function.comp_def]
      rw [leaves, List.map_append, below]
      refine List.nodup_append.mpr
        ⟨List.Nodup.map (fun _ _ same => (List.cons.inj same).2) inner,
          inductionHypothesis othersWellFormed, ?_⟩
      intro left leftMember right rightMember same
      obtain ⟨rest, -, rfl⟩ := List.mem_map.mp leftMember
      obtain ⟨⟨location, content⟩, member, rfl⟩ := List.mem_map.mp rightMember
      cases same
      exact not_mem_leaves_of_ascending ascending rest content member

/-- The regular files of a folder and of the folders within. -/
def files : Folder → List (Location × RegularFile)
  | empty => []
  | leaf name (.file file) others => ([name], file) :: files others
  | leaf _ (.link _) others => files others
  | folder name children others =>
      (files children).map (fun (location, file) => (name :: location, file)) ++
        files others

/-- The file that a leaf is. -/
def fileOf? : Location × Leaf → Option (Location × RegularFile)
  | (location, .file file) => some (location, file)
  | (_, .link _) => none

/-- The files are the leaves that are no links. -/
theorem filterMap_leaves (here : Folder) :
    here.leaves.filterMap fileOf? = here.files := by
  induction here with
  | empty =>
      rfl
  | leaf name content others inductionHypothesis =>
      cases content with
      | file file =>
          rw [leaves, files, List.filterMap_cons, inductionHypothesis]
          rfl
      | link target =>
          rw [leaves, files, List.filterMap_cons, inductionHypothesis]
          rfl
  | folder name children others childrenHypothesis inductionHypothesis =>
      have inner : (children.leaves.map fun (location, content) =>
          (name :: location, content)).filterMap fileOf? =
            children.files.map fun (location, file) => (name :: location, file) := by
        rw [← childrenHypothesis, List.filterMap_map, List.map_filterMap]
        refine List.filterMap_congr fun entry _ => ?_
        obtain ⟨location, file | target⟩ := entry <;> rfl
      rw [leaves, files, List.filterMap_append, inner, inductionHypothesis]

/-- The files are those of the files and links that are no links. -/
theorem mem_files_iff_mem_leaves
    {here : Folder}
    {location : Location}
    {file : RegularFile} :
    (location, file) ∈ here.files ↔ (location, .file file) ∈ here.leaves := by
  rw [← filterMap_leaves, List.mem_filterMap]
  constructor
  · rintro ⟨⟨other, found | target⟩, member, same⟩
    · cases same
      exact member
    · cases same
  · intro member
    exact ⟨_, member, rfl⟩

/-- The listed files are those that `look` finds. -/
theorem mem_files_iff
    {here : Folder}
    (wellFormed : here.WellFormed)
    {location : Location}
    {file : RegularFile} :
    (location, file) ∈ here.files ↔ here.look location = some (.leaf (.file file)) := by
  rw [mem_files_iff_mem_leaves, mem_leaves_iff wellFormed]

/-- No file is listed twice. -/
theorem nodup_files
    {here : Folder}
    (wellFormed : here.WellFormed) :
    (here.files.map Prod.fst).Nodup := by
  rw [← filterMap_leaves]
  refine (nodup_leaves wellFormed).sublist (map_filterMap_sublist ?_)
  rintro ⟨location, file | target⟩ - found same
  · cases same
    rfl
  · cases same

end Folder

end NotePublisher
