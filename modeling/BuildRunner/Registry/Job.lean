import BuildRunner.Registry.Basic

/-!
# Dispatch as a list of jobs

What a list of directives asks for, written out flat: each directive gives the jobs of its command,
or the one job of reporting that it is none. The list depends on the registry and the directives
only, not on how the jobs go.
-/

namespace BuildRunner.Registry

variable {α : Type}

/-- One thing to do. -/
inductive Job (α : Type) where
  | prerequisite (action : α)
  /-- The own action of the command with a name. -/
  | own (command : String) (action : α)
  | unknown (directive : String)
  deriving DecidableEq, Repr

/-- The jobs of a command. -/
def commandJobs (command : Command α) : List (Job α) :=
  command.prerequisites.map .prerequisite ++ command.action.toList.map (.own command.name)

/-- The jobs of a directive. -/
def directiveJobs (registry : Registry α) (directive : String) : List (Job α) :=
  match registry.get? directive with
  | some command => commandJobs command
  | none => [.unknown directive]

/-- The jobs of directives. -/
def jobs (registry : Registry α) (directives : List String) : List (Job α) :=
  directives.flatMap registry.directiveJobs

/-- Does one job. -/
def Job.run [Named α] (perform : α → Run Unit) : Job α → Run Unit
  | prerequisite action => do
    Run.log .info .registry ("==> " ++ Named.name action)
    perform action
  | own command action => do
    Run.log .debug .registry ("==> " ++ command ++ " (" ++ Named.name action ++ ")")
    perform action
  | unknown directive => Run.write (unknownNotice directive)

/-- Does jobs in order up to the first one that fails. -/
def runJobs [Named α] (perform : α → Run Unit) : List (Job α) → Run Unit
  | [] => pure ()
  | job :: jobs => do
    job.run perform
    runJobs perform jobs

end BuildRunner.Registry
