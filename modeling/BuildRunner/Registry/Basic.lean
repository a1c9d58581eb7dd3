import BuildRunner.Session

/-!
# Registries of commands

A registry is a table of named commands in the order in which they were registered. A command may
have an action of its own, and prerequisites: actions that are performed in order before it.
Prerequisites are actions and not commands, so there is no graph to resolve, and nothing is
remembered: dispatching a name twice performs everything twice.
-/

namespace BuildRunner

/-- Things that are shown under a name. -/
class Named (α : Type) where
  name : α → String

/-- A command over actions of some kind. -/
structure Command (α : Type) where
  name : String
  description : String
  action : Option α
  prerequisites : List α
  deriving Repr, DecidableEq

/-- Commands in the order in which they were registered. -/
structure Registry (α : Type) where
  commands : List (Command α)
  deriving Repr, DecidableEq, Inhabited

variable {α : Type}

namespace Command

/-- A headless command is there for its prerequisites only. -/
def isHeadless (command : Command α) : Bool :=
  command.action.isNone

/-- The names of the prerequisites. -/
def prerequisiteNames [Named α] (command : Command α) : List String :=
  command.prerequisites.map Named.name

/-- Performs actions in order, each announced by its name. -/
def runPrerequisites [Named α] (perform : α → Run Unit) : List α → Run Unit
  | [] => pure ()
  | action :: actions => do
    Run.log .info .registry ("==> " ++ Named.name action)
    perform action
    runPrerequisites perform actions

/-- Performs the prerequisites and then the action of the command. -/
def run [Named α] (perform : α → Run Unit) (command : Command α) : Run Unit := do
  runPrerequisites perform command.prerequisites
  match command.action with
  | none => pure ()
  | some action => do
    Run.log .debug .registry ("==> " ++ command.name ++ " (" ++ Named.name action ++ ")")
    perform action

end Command

namespace Registry

/-- The registry without commands. -/
def empty : Registry α := ⟨[]⟩

/-- The command of a name. -/
def get? (registry : Registry α) (name : String) : Option (Command α) :=
  registry.commands.find? fun command => command.name = name

/-- The registry with one more command, whose name must be new. -/
def register (registry : Registry α) (command : Command α) : Except Failure (Registry α) :=
  match registry.get? command.name with
  | some _ => .error (.duplicateCommand command.name)
  | none => .ok ⟨registry.commands ++ [command]⟩

/-- Only a new name can be registered, and its command then stands behind all others. -/
theorem register_eq_ok_iff {registry registry' : Registry α} {command : Command α} :
    registry.register command = .ok registry' ↔
      registry.get? command.name = none ∧ registry' = ⟨registry.commands ++ [command]⟩ := by
  unfold register
  cases h : registry.get? command.name with
  | none => simp [eq_comm]
  | some _ => simp

/-- What is written about a directive that is no command. -/
def unknownNotice (directive : String) : String :=
  "unknown build directive: " ++ directive ++ "\n"

/-- Runs the commands that directives name, one after the other. A directive that is no command is
reported on the output stream and skipped; a failure ends the dispatch. -/
def dispatch [Named α] (registry : Registry α) (perform : α → Run Unit) :
    List String → Run Unit
  | [] => pure ()
  | directive :: directives => do
    match registry.get? directive with
    | some command => command.run perform
    | none => Run.write (unknownNotice directive)
    registry.dispatch perform directives

end Registry

end BuildRunner
