/-!
# Environment variables

The variables of a process as pairs in a fixed order. Setting a known variable keeps its place; a
new one goes to the end. Names and values are taken to be texts, since settings are read from them;
a directory of `PATH` whose path is no text is not modelled.
-/

namespace BuildRunner

/-- Variables with their values, in order. -/
structure Environment where
  pairs : List (String × String)
  deriving DecidableEq, Repr, Inhabited

namespace Environment

/-- The value of a variable. -/
def get? (env : Environment) (name : String) : Option String :=
  (env.pairs.find? fun pair => pair.1 = name).map (·.2)

/-- The environment in which a variable has a value. -/
def put (env : Environment) (name value : String) : Environment :=
  if env.pairs.any fun pair => pair.1 = name then
    ⟨env.pairs.map fun pair => if pair.1 = name then (name, value) else pair⟩
  else ⟨env.pairs ++ [(name, value)]⟩

/-- The environment without a variable. -/
def erase (env : Environment) (name : String) : Environment :=
  ⟨env.pairs.filter fun pair => pair.1 ≠ name⟩

end Environment

end BuildRunner
