import BuildRunner.Settings.Value

/-!
# The tree of a TOML document

A document is a table of items. Tables differ in how they came about, because that decides who may
add to them: a header defines a table once; passing through a name that is not yet known implies a
table, which a later header may still define; a dotted key makes tables that only dotted keys and
deeper headers may extend; an inline table is closed where it ends. Adding to a document is refused
where these rules do not allow it.
-/

namespace BuildRunner.Toml

open Settings (Scalar Source Value Table)

/-- How a table came about. -/
inductive Making where
  | defined
  | implied
  | dotted
  | inline
  deriving DecidableEq, Repr

mutual

/-- What a name in a document stands for. -/
inductive Item where
  | scalar (scalar : Scalar)
  | list (items : List Item)
  | table (making : Making) (entries : Entries)
  /-- Tables under one name, of which the last one is added to. -/
  | tables (rows : List Entries)

/-- Named items, each name once. -/
inductive Entries where
  | empty
  | entry (name : String) (item : Item) (rest : Entries)

end

instance : Inhabited Item := ⟨.list []⟩

instance : Inhabited Entries := ⟨.empty⟩

namespace Entries

/-- The item of a name. -/
def find? : Entries → String → Option Item
  | empty, _ => none
  | entry name item rest, wanted => if name = wanted then some item else rest.find? wanted

/-- The entries in which a name stands for an item. -/
def put (name : String) (item : Item) : Entries → Entries
  | empty => entry name item empty
  | entry other old rest =>
    if other = name then entry other item rest else entry other old (rest.put name item)

/-- The entries with what `change` makes of the table that a way of names leads to. Names that are
missing on the way become tables of the given making. A way of dotted keys leads only through
tables that were not defined otherwise; no way leads into an inline table. -/
def alter (making : Making) (change : Making → Entries → Option Entries) :
    List String → Making → Entries → Option Entries
  | [], here, entries => change here entries
  | name :: way, _, entries =>
    match entries.find? name with
    | none => do
      return entries.put name (.table making (← alter making change way making empty))
    | some (.table there inner) =>
      if there = .inline || (making = .dotted && there = .defined) then none
      else do return entries.put name (.table there (← alter making change way there inner))
    | some (.tables rows) =>
      match rows.getLast? with
      | none => none
      | some last => do
        let last ← alter making change way .defined last
        return entries.put name (.tables (rows.dropLast ++ [last]))
    | some _ => none

/-- The entries of a table with one more item, under a dotted key. A key of one name is refused in
a table that dotted keys made. -/
def insert (key : List String) (item : Item) (making : Making) (entries : Entries) :
    Option Entries :=
  match key.getLast? with
  | none => none
  | some name =>
    let way := key.dropLast
    let add (there : Making) (entries : Entries) : Option Entries :=
      if there = .dotted ↔ way = [] then none
      else
        match entries.find? name with
        | none => some (entries.put name item)
        | some _ => none
    alter .dotted add way making entries

/-- The entries with a table that a header defines. -/
def define (key : List String) (entries : Entries) : Option Entries :=
  match key.getLast? with
  | none => none
  | some name =>
    let add (_ : Making) (entries : Entries) : Option Entries :=
      match entries.find? name with
      | none => some (entries.put name (.table .defined empty))
      | some (.table .implied inner) => some (entries.put name (.table .defined inner))
      | some _ => none
    alter .implied add key.dropLast .defined entries

/-- The entries with one more table under the name of a header. -/
def addRow (key : List String) (entries : Entries) : Option Entries :=
  match key.getLast? with
  | none => none
  | some name =>
    let add (_ : Making) (entries : Entries) : Option Entries :=
      match entries.find? name with
      | none => some (entries.put name (.tables [empty]))
      | some (.tables rows) => some (entries.put name (.tables (rows ++ [empty])))
      | some _ => none
    alter .implied add key.dropLast .defined entries

end Entries

mutual

/-- An item as a value of settings from a source. -/
def Item.value (source : Source) : Item → Value
  | .scalar scalar => .scalar source scalar
  | .list items => .list source (values source items)
  | .table _ entries => .table source (entries.table source)
  | .tables rows => .list source (rowValues source rows)

/-- The values of items. -/
def values (source : Source) : List Item → List Value
  | [] => []
  | item :: items => item.value source :: values source items

/-- The values of tables under one name. -/
def rowValues (source : Source) : List Entries → List Value
  | [] => []
  | row :: rows => .table source (row.table source) :: rowValues source rows

/-- Entries as a table of settings from a source. -/
def Entries.table (source : Source) : Entries → Table
  | .empty => .empty
  | .entry name item rest => .entry name (item.value source) (rest.table source)

end

end BuildRunner.Toml
