import BuildRunner.Session

/-!
# Invocations

A program with its arguments, before it is started. Starting one is shown by the program's name and
the arguments, and waits for the program to end. How the program ends is reported when it is no
success, and never fails the run; only a program that cannot be started does.
-/

namespace BuildRunner

/-- A program and its arguments. -/
structure Invocation where
  program : Path
  arguments : List String
  deriving DecidableEq, Repr

/-- The name of a signal. -/
def signalName : Nat → String
  | 1 => "SIGHUP"
  | 2 => "SIGINT"
  | 3 => "SIGQUIT"
  | 6 => "SIGABRT"
  | 9 => "SIGKILL"
  | 10 => "SIGUSR1"
  | 12 => "SIGUSR2"
  | 13 => "SIGPIPE"
  | 14 => "SIGALRM"
  | 15 => "SIGTERM"
  | _ => "UNKNOWN"

/-- How a program ended, as it is reported. -/
def ExitStatus.shown : ExitStatus → String
  | code n => "exit status: " ++ toString n
  | signal n => "signal: " ++ toString n ++ " (" ++ signalName n ++ ")"

/-- Whether a program ended in success. -/
def ExitStatus.isSuccess (status : ExitStatus) : Bool :=
  status = .code 0

namespace World

/-- The file that is executed when a program is started: a relative path is followed from the
working directory, never looked up by name. -/
def executable (w : World) (program : Path) : Except Fault Path :=
  if program.isAbsolute then .ok program else w.canonical ⟨"./" ++ program.raw⟩

/-- Checks that a directory can be started in and a file be executed. -/
def checkLaunch (w : World) (launch : Launch) : Except Fault Unit := do
  let texts : List RawText :=
    launch.program.raw :: launch.directory.raw :: launch.arguments.map RawText.ofString
  if texts.any fun text => text.bytes.contains 0 then throw .nulInCommand
  match ← w.node launch.directory true with
  | .directory _ => pure ()
  | _ => throw .notDirectory
  match ← w.node launch.program true with
  | .file _ true => pure ()
  | _ => throw .permissionDenied

end World

namespace Invocation

/-- The name of the program as it is shown. -/
def programName (invocation : Invocation) : String :=
  (invocation.program.fileName?.getD invocation.program.raw).text

/-- The invocation as it is shown. -/
def display (invocation : Invocation) : String :=
  String.intercalate " " (invocation.programName :: invocation.arguments)

/-- Starts the program in a directory and waits for its end. -/
def start (programs : Programs) (directory : Path) (invocation : Invocation) :
    Run ExitStatus := do
  let w ← Run.world
  let program ← Run.lift .io (w.executable invocation.program)
  let launch : Launch := ⟨program, invocation.arguments, directory⟩
  Run.lift .io (w.checkLaunch launch)
  let outcome ← Run.lift .io (programs launch w)
  Run.note (.launched launch)
  Run.setWorld (w.withFiles outcome.files)
  Run.note (.printed outcome.output)
  Run.note (.complained outcome.complaints)
  return outcome.status

/-- Shows the invocation, starts it, and reports an end that is no success. -/
def run (programs : Programs) (directory : Path) (invocation : Invocation) : Run Unit := do
  Run.log .info .process invocation.display
  let status ← invocation.start programs directory
  unless status.isSuccess do
    Run.log .warn .process (invocation.programName ++ " exited with " ++ status.shown)

/-- Runs invocations one after the other. -/
def runAll (programs : Programs) (directory : Path) : List Invocation → Run Unit
  | [] => pure ()
  | invocation :: invocations => do
    invocation.run programs directory
    runAll programs directory invocations

end Invocation

end BuildRunner
