import NotePublisher.Text.Utf8

namespace NotePublisher

/-!
# Folders

A folder is a list of named entries: regular files, symbolic links and folders
within it. A `Location` is the sequence of names that leads from a folder to
something below it. `Folder.look` says what is at a location, without following
links; it is the view through which every change to a folder is described
(`look_insert`, `look_erase`, `look_update`).
-/

/-- The name of an entry, as bytes. -/
abbrev Name := ByteArray

/-- The names that lead from a folder to something below it. -/
abbrev Location := List Name

/-- A regular file: its permission bits and its contents. -/
structure RegularFile where
  mode : Nat
  content : ByteArray
  deriving DecidableEq

/-- An entry that holds no further entries. -/
inductive Leaf where
  | file (file : RegularFile)
  | link (target : Text)
  deriving DecidableEq

/-- The entries of a folder. -/
inductive Folder where
  | empty
  | leaf (name : Name) (leaf : Leaf) (others : Folder)
  | folder (name : Name) (children : Folder) (others : Folder)
  deriving DecidableEq

/-- What a name of a folder stands for. -/
inductive Entry where
  | leaf (leaf : Leaf)
  | folder (children : Folder)
  deriving DecidableEq

/-- What is at a location. -/
inductive Kind where
  | leaf (leaf : Leaf)
  | folder
  deriving DecidableEq

namespace Folder

/-- A folder with one more entry in front. -/
def cons
    (name : Name)
    (entry : Entry)
    (others : Folder) :
    Folder :=
  match entry with
  | .leaf content => leaf name content others
  | .folder children => folder name children others

/-- Whether a folder has no entries. -/
def isEmpty : Folder → Bool
  | empty => true
  | leaf _ _ _ => false
  | folder _ _ _ => false

/-- The entry of a name. -/
def find?
    (wanted : Name) :
    Folder →
    Option Entry
  | empty => none
  | leaf name content others =>
      if name = wanted then some (.leaf content) else find? wanted others
  | folder name children others =>
      if name = wanted then some (.folder children) else find? wanted others

/-- Put an entry under a name, in the order of the names' bytes. -/
def insert
    (name : Name)
    (entry : Entry) :
    Folder →
    Folder
  | empty => cons name entry empty
  | leaf first content others =>
      match byteOrder name first with
      | .lt => cons name entry (leaf first content others)
      | .eq => cons name entry others
      | .gt => leaf first content (insert name entry others)
  | folder first children others =>
      match byteOrder name first with
      | .lt => cons name entry (folder first children others)
      | .eq => cons name entry others
      | .gt => folder first children (insert name entry others)

/-- Remove the entry of a name. -/
def erase
    (unwanted : Name) :
    Folder →
    Folder
  | empty => empty
  | leaf name content others =>
      if name = unwanted then
        erase unwanted others
      else
        leaf name content (erase unwanted others)
  | folder name children others =>
      if name = unwanted then
        erase unwanted others
      else
        folder name children (erase unwanted others)

/-- The folder at a location. -/
def folderAt? :
    Location →
    Folder →
    Option Folder
  | [], here => some here
  | name :: rest, here =>
      match here.find? name with
      | some (.folder children) => folderAt? rest children
      | some (.leaf _) => none
      | none => none

/-- What is at a location, without following links. -/
def look :
    Location →
    Folder →
    Option Kind
  | [], _ => some .folder
  | name :: rest, here =>
      match here.find? name with
      | some (.folder children) => look rest children
      | some (.leaf content) => if rest.isEmpty then some (.leaf content) else none
      | none => none

/-- Change the folder at a location, if there is one. -/
def update
    (change : Folder → Folder) :
    Location →
    Folder →
    Folder
  | [], here => change here
  | name :: rest, here =>
      match here.find? name with
      | some (.folder children) =>
          here.insert name (.folder (update change rest children))
      | some (.leaf _) => here
      | none => here

end Folder

/-- What is at a location below an entry. -/
def Entry.look
    (rest : Location) :
    Entry →
    Option Kind
  | leaf content => if rest.isEmpty then some (.leaf content) else none
  | folder children => children.look rest

namespace Folder

@[simp] theorem find?_cons
    (name wanted : Name)
    (entry : Entry)
    (others : Folder) :
    (cons name entry others).find? wanted =
      if name = wanted then some entry else others.find? wanted := by
  cases entry <;> rfl

/-- An inserted entry is found under its name; other names stand for what they did. -/
theorem find?_insert
    (name wanted : Name)
    (entry : Entry)
    (here : Folder) :
    (here.insert name entry).find? wanted =
      if name = wanted then some entry else here.find? wanted := by
  induction here with
  | empty =>
      simp [insert]
  | leaf first content others inductionHypothesis =>
      simp only [insert]
      cases compared : byteOrder name first with
      | lt => simp [find?]
      | eq =>
          have same := byteOrder_eq_iff.mp compared
          subst same
          by_cases found : name = wanted <;> simp [find?, found]
      | gt =>
          have different : name ≠ first := by
            intro same
            simp [byteOrder_eq_iff.mpr same] at compared
          simp only [find?, inductionHypothesis]
          by_cases found : name = wanted
          · subst found
            simp [Ne.symm different]
          · simp [found]
  | folder first children others _ inductionHypothesis =>
      simp only [insert]
      cases compared : byteOrder name first with
      | lt => simp [find?]
      | eq =>
          have same := byteOrder_eq_iff.mp compared
          subst same
          by_cases found : name = wanted <;> simp [find?, found]
      | gt =>
          have different : name ≠ first := by
            intro same
            simp [byteOrder_eq_iff.mpr same] at compared
          simp only [find?, inductionHypothesis]
          by_cases found : name = wanted
          · subst found
            simp [Ne.symm different]
          · simp [found]

/-- An erased name stands for nothing; other names stand for what they did. -/
theorem find?_erase
    (unwanted wanted : Name)
    (here : Folder) :
    (here.erase unwanted).find? wanted =
      if unwanted = wanted then none else here.find? wanted := by
  induction here with
  | empty =>
      simp [erase, find?]
  | leaf first content others inductionHypothesis =>
      by_cases same : first = unwanted
      · subst same
        simp only [erase, if_pos, inductionHypothesis, find?]
        by_cases found : first = wanted <;> simp [found]
      · by_cases found : unwanted = wanted
        · subst found
          simp [erase, find?, inductionHypothesis, same]
        · simp [erase, find?, inductionHypothesis, same, found]
  | folder first children others _ inductionHypothesis =>
      by_cases same : first = unwanted
      · subst same
        simp only [erase, if_pos, inductionHypothesis, find?]
        by_cases found : first = wanted <;> simp [found]
      · by_cases found : unwanted = wanted
        · subst found
          simp [erase, find?, inductionHypothesis, same]
        · simp [erase, find?, inductionHypothesis, same, found]

@[simp] theorem look_nil (here : Folder) :
    here.look [] = some .folder := by
  rw [look]

/-- What is below a folder is what is below one of its entries. -/
theorem look_cons
    (name : Name)
    (rest : Location)
    (here : Folder) :
    here.look (name :: rest) = (here.find? name).bind (Entry.look rest) := by
  rw [look]
  cases here.find? name with
  | none => rfl
  | some entry => cases entry <;> rfl

/-- Inserting an entry changes what is at and below its name only. -/
theorem look_insert
    (name wanted : Name)
    (entry : Entry)
    (rest : Location)
    (here : Folder) :
    (here.insert name entry).look (wanted :: rest) =
      if name = wanted then entry.look rest else here.look (wanted :: rest) := by
  rw [look_cons, find?_insert, look_cons]
  split <;> rfl

/-- Erasing a name changes what is at and below that name only. -/
theorem look_erase
    (unwanted wanted : Name)
    (rest : Location)
    (here : Folder) :
    (here.erase unwanted).look (wanted :: rest) =
      if unwanted = wanted then none else here.look (wanted :: rest) := by
  rw [look_cons, find?_erase, look_cons]
  split <;> rfl

/-- A location holds a folder exactly if it leads to one. -/
theorem look_eq_folder_iff
    {location : Location}
    {here : Folder} :
    here.look location = some .folder ↔ (here.folderAt? location).isSome := by
  induction location generalizing here with
  | nil =>
      simp [folderAt?]
  | cons name rest inductionHypothesis =>
      rw [look, folderAt?]
      cases here.find? name with
      | none => simp
      | some entry =>
          cases entry with
          | leaf content => by_cases last : rest.isEmpty <;> simp [last]
          | folder children => exact inductionHypothesis

/-- Below a changed folder is what is below the folder that the change makes. -/
theorem look_update_append
    (change : Folder → Folder)
    {location : Location}
    (path : Location)
    {here inside : Folder}
    (leads : here.folderAt? location = some inside) :
    (here.update change location).look (location ++ path) =
      (change inside).look path := by
  induction location generalizing here with
  | nil =>
      simp only [folderAt?, Option.some.injEq] at leads
      simp [update, leads]
  | cons name rest inductionHypothesis =>
      rw [folderAt?] at leads
      rw [update]
      cases found : here.find? name with
      | none => simp [found] at leads
      | some entry =>
          cases entry with
          | leaf content => simp [found] at leads
          | folder children =>
              simp only [found] at leads
              simp only [List.cons_append, look_insert, if_pos, Entry.look]
              exact inductionHypothesis leads

/-- A change of a folder keeps what is not below that folder. -/
theorem look_update_of_not_below
    (change : Folder → Folder)
    {location path : Location}
    (here : Folder)
    (notBelow : ¬ location <+: path) :
    (here.update change location).look path = here.look path := by
  induction location generalizing here path with
  | nil =>
      exact absurd List.nil_prefix notBelow
  | cons name rest inductionHypothesis =>
      rw [update]
      cases found : here.find? name with
      | none => rfl
      | some entry =>
          cases entry with
          | leaf content => rfl
          | folder children =>
              cases path with
              | nil => simp
              | cons wanted others =>
                  rw [look_insert]
                  by_cases same : name = wanted
                  · subst same
                    have below : ¬ rest <+: others := by
                      intro inner
                      exact notBelow (List.cons_prefix_cons.mpr ⟨rfl, inner⟩)
                    rw [if_pos rfl, look_cons, found]
                    exact inductionHypothesis children below
                  · rw [if_neg same]

end Folder

end NotePublisher
