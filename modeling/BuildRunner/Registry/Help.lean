import BuildRunner.Registry.Basic

/-!
# The help listing

Commands with fewer prerequisites are listed first, those with equally many in the order of their
registration. Names and lists of prerequisites stand in columns whose width follows the longest
name.
-/

namespace BuildRunner.Registry

variable {α : Type} [Named α]

/-- What the listing starts with. -/
def helpHeading : String :=
  "\nusage: x [DIRECTIVE...]\n\na directive can be any of the following:\n\n"

/-- The width of the first column: two more than the bytes of the longest name. -/
def nameWidth (registry : Registry α) : Nat :=
  (registry.commands.map fun command => command.name.utf8ByteSize).foldl max 0 + 2

/-- A text with spaces behind it up to a width in characters. -/
def padded (width : Nat) (text : String) : String :=
  text ++ String.ofList (List.replicate (width - text.length) ' ')

/-- The commands in the order of the listing. -/
def listed (registry : Registry α) : List (Command α) :=
  registry.commands.mergeSort fun a b => a.prerequisites.length ≤ b.prerequisites.length

/-- The entry of a command. -/
def helpEntry (width : Nat) (command : Command α) : String :=
  let line := "\t" ++ padded width command.name ++ command.description ++ "\n"
  if command.prerequisites.isEmpty then line
  else
    line ++ "\t" ++ padded width "" ++ "depends on: "
      ++ String.intercalate ", " command.prerequisiteNames ++ "\n"

/-- The help listing. -/
def help (registry : Registry α) : String :=
  helpHeading ++ String.join (registry.listed.map (helpEntry registry.nameWidth))

end BuildRunner.Registry
