import NotePublisher.Text.Basic

namespace NotePublisher

/-!
# TOML tables

A TOML document is a table: keys with values, some of which are tables. Each
table remembers how it came about, because that decides what may still be
added to it: a header opens a table once, dotted keys extend only tables that
dotted keys made, and an inline table is complete where it is written. Every
key is set once.
-/

namespace Toml

/-- How a table came about. -/
inductive TableForm where
  /-- By a header of its own, or as the document itself. -/
  | opened
  /-- On the way to the table of a header. -/
  | implied
  /-- On the way to the value of a dotted key. -/
  | dotted
  /-- Between braces. -/
  | inline
  deriving DecidableEq, Repr

mutual

/-- A value of a document. -/
inductive Node where
  | text (content : Text)
  | integer (number : Int)
  /-- A number with a fraction or an exponent, as it is written. -/
  | float (literal : Text)
  | boolean (flag : Bool)
  /-- A date, a time or both, as they are written. -/
  | moment (literal : Text)
  | array (items : List Node)
  | table (table : Table)
  /-- The tables of repeated headers; the last one is still open. -/
  | tables (earlier : List Table) (last : Table)

/-- Keys with values, the first key set first. -/
inductive Table where
  | mk (form : TableForm) (entries : List (Text × Node))

end

namespace Table

/-- How the table came about. -/
def form : Table → TableForm
  | mk form _ => form

/-- The keys and values. -/
def entries : Table → List (Text × Node)
  | mk _ entries => entries

/-- A table without keys. -/
def empty (form : TableForm) : Table :=
  mk form []

/-- The same keys and values in a table that came about otherwise. -/
def withForm
    (form : TableForm)
    (table : Table) :
    Table :=
  mk form table.entries

/-- The value of a key among entries. -/
def findEntry?
    (wanted : Text) :
    List (Text × Node) →
    Option Node
  | [] => none
  | (key, node) :: others =>
      if key = wanted then some node else findEntry? wanted others

/-- Entries in which a key has a value, new or in the place of another. -/
def setEntry
    (wanted : Text)
    (node : Node) :
    List (Text × Node) →
    List (Text × Node)
  | [] => [(wanted, node)]
  | (key, old) :: others =>
      if key = wanted then
        (key, node) :: others
      else
        (key, old) :: setEntry wanted node others

/-- The value of a key. -/
def find?
    (table : Table)
    (key : Text) :
    Option Node :=
  findEntry? key table.entries

/-- The table in which a key has a value. -/
def set
    (table : Table)
    (key : Text)
    (node : Node) :
    Table :=
  mk table.form (setEntry key node table.entries)

/-- Setting a key gives it its value and leaves the others alone. -/
theorem find?_set
    (table : Table)
    (key wanted : Text)
    (node : Node) :
    (table.set key node).find? wanted =
      if key = wanted then some node else table.find? wanted := by
  obtain ⟨form, entries⟩ := table
  simp only [find?, set, Table.entries]
  induction entries with
  | nil =>
      simp [setEntry, findEntry?]
  | cons entry others inductionHypothesis =>
      obtain ⟨first, old⟩ := entry
      by_cases same : first = key
      · subst same
        by_cases found : first = wanted <;> simp [setEntry, findEntry?, found]
      · by_cases found : first = wanted
        · subst found
          simp [setEntry, findEntry?, same, Ne.symm same]
        · simpa [setEntry, findEntry?, same, found] using inductionHypothesis

/--
Change the table that keys lead to. Missing tables on the way are made. Keys
lead into the last of repeated tables, but never into an inline table, and
those of a dotted key never into a table opened by a header.
-/
def updateAt?
    (byDottedKey : Bool)
    (change : Table → Option Table) :
    List Text →
    Table →
    Option Table
  | [], table => change table
  | key :: keys, table =>
      match table.find? key with
      | none =>
          let made := empty (if byDottedKey then .dotted else .implied)
          (updateAt? byDottedKey change keys made).map fun changed =>
            table.set key (.table changed)
      | some (.table inner) =>
          if inner.form = .inline || (byDottedKey && inner.form = .opened) then
            none
          else
            (updateAt? byDottedKey change keys inner).map fun changed =>
              table.set key (.table changed)
      | some (.tables earlier last) =>
          (updateAt? byDottedKey change keys last).map fun changed =>
            table.set key (.tables earlier changed)
      | some _ => none

/-- Set a key that has no value yet; `above` are the keys before it, if it is dotted. -/
def assign?
    (above : List Text)
    (key : Text)
    (node : Node)
    (table : Table) :
    Option Table :=
  updateAt? true
    (fun parent =>
      if parent.form ≠ .dotted && !above.isEmpty then
        none
      else
        match parent.find? key with
        | some _ => none
        | none => some (parent.set key node))
    above table

/-- Open the table of a header. -/
def openTable?
    (above : List Text)
    (key : Text)
    (table : Table) :
    Option Table :=
  updateAt? false
    (fun parent =>
      match parent.find? key with
      | none => some (parent.set key (.table (empty .opened)))
      | some (.table inner) =>
          if inner.form = .implied then
            some (parent.set key (.table (inner.withForm .opened)))
          else
            none
      | some _ => none)
    above table

/-- Open one more table of a repeated header. -/
def openElement?
    (above : List Text)
    (key : Text)
    (table : Table) :
    Option Table :=
  updateAt? false
    (fun parent =>
      match parent.find? key with
      | none => some (parent.set key (.tables [] (empty .opened)))
      | some (.tables earlier last) =>
          some (parent.set key (.tables (earlier ++ [last]) (empty .opened)))
      | some _ => none)
    above table

end Table

end Toml

end NotePublisher
