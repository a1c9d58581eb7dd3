import BuildRunner.Fault
import BuildRunner.Settings.Refusal

/-!
# Failures

Why a directive or a scan ends early. Each failure has one text. `exit` is no failure in itself: it
ends the run after help was given.
-/

namespace BuildRunner

/-- The external tools. -/
inductive Tool where
  | zig
  | asciidoctor
  deriving DecidableEq, Repr

/-- The name under which users know a tool. -/
def Tool.title : Tool → String
  | zig => "Zig"
  | asciidoctor => "Asciidoctor"

/-- The name of a tool's program. -/
def Tool.programName : Tool → String
  | zig => "zig"
  | asciidoctor => "asciidoctor"

/-- What was to be changed when the file tree refused. -/
inductive ShellFault where
  | noWorkingDirectory (fault : Fault)
  | removing (path : Path) (fault : Fault)
  | creating (path : Path) (fault : Fault)
  deriving DecidableEq, Repr

/-- The text of a refused change. -/
def ShellFault.message : ShellFault → String
  | noWorkingDirectory fault => "failed to get current directory: " ++ fault.message
  | removing path fault => "failed to remove path `" ++ path.text ++ "`: " ++ fault.message
  | creating path fault => "failed to create directory `" ++ path.text ++ "`: " ++ fault.message

/-- Why a run ends early. -/
inductive Failure where
  | toolMissing (tool : Tool)
  | duplicateCommand (name : String)
  /-- A file whose lines cannot be extracted. -/
  | extract (path : Path) (fault : Fault)
  /-- A directory that cannot be listed. -/
  | listing (path : Path) (fault : Fault)
  /-- A tree that cannot be walked. -/
  | walk (path : Path) (fault : Fault)
  /-- A stream or a process that failed. -/
  | io (fault : Fault)
  | settings (fault : Settings.Refusal)
  | shell (fault : ShellFault)
  /-- Directives that call each other deeper than is followed. -/
  | nestedTooDeep
  /-- The run is over, successfully. -/
  | exit
  deriving DecidableEq, Repr

/-- Where a walk failed and why. -/
def walkMessage (path : Path) (fault : Fault) : String :=
  "IO error for operation on " ++ path.text ++ ": " ++ fault.message

/-- The text of a failure. -/
def Failure.message : Failure → String
  | toolMissing tool => "VASM requires " ++ tool.title ++ " to be installed."
  | duplicateCommand name => "Command already registered: " ++ name
  | extract path fault => "failed to extract from " ++ path.text ++ ": " ++ fault.message
  | listing path fault => "failed to list " ++ path.text ++ ": " ++ fault.message
  | walk path fault => "walk: " ++ walkMessage path fault
  | io fault => "io: " ++ fault.message
  | settings fault => "figment: " ++ fault.message
  | shell fault => "xshell: " ++ fault.message
  | nestedTooDeep => "directives are nested too deeply"
  | exit => "Exit"

end BuildRunner
