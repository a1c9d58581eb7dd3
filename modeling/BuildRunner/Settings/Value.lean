import BuildRunner.Path.Basic
import BuildRunner.Settings.Scalar

/-!
# Values of settings

What settings are read from: simple values, lists and tables. Every value knows where it comes
from. A later table is merged into an earlier one name by name, and any other later value takes the
place of the earlier one.
-/

namespace BuildRunner.Settings

/-- Where a value comes from. -/
inductive Source where
  /-- A settings file, under the path by which it is reported. -/
  | file (path : Path)
  /-- The variables of the environment. -/
  | environment
  deriving DecidableEq, Repr

mutual

/-- A value with its source. -/
inductive Value where
  | scalar (source : Source) (scalar : Scalar)
  | list (source : Source) (items : List Value)
  | table (source : Source) (entries : Table)

/-- Named values, each name once. -/
inductive Table where
  | empty
  | entry (name : String) (value : Value) (rest : Table)

end

instance : Inhabited Table := ⟨.empty⟩

/-- Where a value comes from. -/
def Value.source : Value → Source
  | scalar source _ => source
  | list source _ => source
  | table source _ => source

/-- A value as it is shown where it is refused. -/
def Value.shown : Value → String
  | scalar _ content => content.shown
  | list .. => "sequence"
  | table .. => "map"

namespace Table

/-- The value of a name. -/
def find? : Table → String → Option Value
  | empty, _ => none
  | entry name value rest, wanted => if name = wanted then some value else rest.find? wanted

/-- The table in which a name has a value: a known name keeps its place, a new one goes to the
end. -/
def put (name : String) (value : Value) : Table → Table
  | empty => entry name value empty
  | entry other old rest =>
    if other = name then entry other value rest else entry other old (rest.put name value)

/-- Putting a name changes its value and no other. -/
theorem find?_put (table : Table) (name other : String) (value : Value) :
    (table.put name value).find? other =
      if name = other then some value else table.find? other := by
  fun_induction put name value table with
  | case1 => rfl
  | case2 => grind [find?]
  | case3 => grind [find?]

/-- The table of pairs, of which a later one counts. -/
def ofList (pairs : List (String × Value)) : Table :=
  pairs.foldl (fun table (name, value) => table.put name value) empty

end Table

mutual

/-- What an earlier value is when a later one is merged into it. -/
def Value.merge : Value → Value → Value
  | .table _ earlier, .table source later => .table source (earlier.merge later)
  | _, .table source later => .table source later
  | _, .list source items => .list source items
  | _, .scalar source scalar => .scalar source scalar

/-- The entries of an earlier table with those of a later one merged in. -/
def Table.merge (earlier : Table) : Table → Table
  | .empty => earlier
  | .entry name value rest =>
    let merged :=
      match earlier.find? name with
      | some before => before.merge value
      | none => value
    (earlier.put name merged).merge rest

end

/-- The table in which a value stands below the given names, each a table in the one before. -/
def Table.nest (source : Source) (value : Value) : List String → Table
  | [] => .empty
  | [name] => .entry name value .empty
  | name :: names => .entry name (.table source (Table.nest source value names)) .empty

end BuildRunner.Settings
