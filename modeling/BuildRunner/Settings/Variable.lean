import BuildRunner.Environment
import BuildRunner.Settings.Inline

/-!
# Settings from environment variables

A variable gives a setting when its name starts with `VASM_X_`, whatever the case of the letters and
the blanks around the name. The rest of the name is the key: two underscores in a row stand for a
dot, blanks around it and the case of ASCII letters do not count, and dots separate the names on the
way down to the setting. A key with an empty name in it gives nothing. Of two variables the later
one counts.
-/

namespace BuildRunner.Settings

/-- What the names of setting variables start with. -/
def variablePrefix : String := "VASM_X_"

/-- The text with each two underscores in a row, found from the left, made a dot. -/
def dotted : List Char → List Char
  | '_' :: '_' :: rest => '.' :: dotted rest
  | c :: rest => c :: dotted rest
  | [] => []

/-- The text in lower case, as far as it is ASCII. -/
def lowered (s : String) : String :=
  String.ofList (s.toList.map Char.toLower)

/-- The names that the rest of a variable's name stands for. -/
def keyOf (rest : List Char) : List String :=
  Text.pieces '.' (lowered (String.ofList (Text.trim (dotted rest))))

/-- The key of the setting that a variable gives. -/
def variableKey? (name : String) : Option (List String) :=
  let name := Text.trim name.toList
  let front := name.take variablePrefix.length
  if lowered (String.ofList front) = lowered variablePrefix then
    let key := keyOf (name.drop variablePrefix.length)
    if key.contains "" then none else some key
  else none

/-- The table of the one setting that a variable gives. -/
def variableTable? (name content : String) : Option Table :=
  (variableKey? name).map fun key =>
    Table.nest .environment (Inline.read .environment content) key

/-- The settings that an environment gives. -/
def fromEnvironment (env : Environment) : Table :=
  (env.pairs.filterMap fun pair => variableTable? pair.1 pair.2).foldl Table.merge .empty

end BuildRunner.Settings
