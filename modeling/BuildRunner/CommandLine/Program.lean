import BuildRunner.Action.Table
import BuildRunner.CommandLine.ScanArguments
import BuildRunner.Log.Filter
import BuildRunner.Scan.Basic

/-!
# The programs

Three programs: `x` runs directives, and two scanners list documentation comments and what is still
to do. A program runs a session in a world and reports how it ended: a status, what went to standard
output and to standard error, and the world it left.
-/

namespace BuildRunner

/-- The programs. -/
inductive Program where
  | x
  | extractDocs
  | extractTodos
  deriving DecidableEq, Repr

/-- The name of a program. -/
def Program.name : Program → String
  | x => "x"
  | extractDocs => "extract-docs"
  | extractTodos => "extract-todos"

/-- How a program ended and what it left. -/
structure Report where
  status : Nat
  output : String
  complaints : String
  world : World

/-- The part of the output that an event is. -/
def Event.output : Event → List UInt8
  | wrote bytes => bytes
  | printed text => Text.utf8 text
  | _ => []

/-- The part of the complaints that an event is, where a filter chooses the records shown. -/
def Event.complaint (filter : Log.Filter) : Event → String
  | logged record => if filter.shows record then record.line ++ "\n" else ""
  | complained text => text
  | _ => ""

/-- The filter of the log that the environment asks for. Without a wish all but debugging records
are shown. -/
def World.logFilter (w : World) : Log.Filter × List String :=
  Log.Filter.read ((w.environment.get? "RUST_LOG").getD "info")

/-- The warning about a part of a filter that cannot be read. -/
def filterWarning (refused : String) : String :=
  "warning: invalid logging spec '" ++ refused ++ "', ignoring it\n"

/-- The report of a session that ended with a status. -/
def Session.report (s : Session) (status : Nat) : Report :=
  let (filter, refused) := s.world.logFilter
  let complaints := refused.map filterWarning ++ s.trace.map (Event.complaint filter)
  { status
    output := (Text.ofUtf8? (s.trace.flatMap Event.output)).getD ""
    complaints := String.join complaints
    world := s.world }

/-- The session that starts in a world, its output not limited. -/
def Session.start (w : World) : Session := ⟨w, none, []⟩

/-- The directives among the arguments of `x`: all but a separator in front. -/
def directivesOf : List String → List String
  | "--" :: arguments => arguments
  | arguments => arguments

/-- What `x` does in a project: it loads the settings, locates the tools, and dispatches the
directives, or writes the help listing when there are none. -/
def runDirectives (programs : Programs) (root : Path) (directives : List String) :
    Run Unit := do
  let settings ← match Settings.load (← Run.world) root with
    | .ok settings => pure settings
    | .error refusal => throw (.settings refusal)
  let cx ← Context.resolve root settings
  let registry ← match buildRegistry with
    | .ok registry => pure registry
    | .error failure => throw failure
  if directives.isEmpty then Run.write registry.help
  else registry.run programs cx directives

/-- The level at which the end of `x` by a failure is reported, none for a success. -/
def Failure.level? : Failure → Option Log.Level
  | exit => none
  | toolMissing _ => some .warn
  | _ => some .error

/-- The program `x` in a project. -/
def runX (programs : Programs) (root : Path) (arguments : List String) (w : World) : Report :=
  match (runDirectives programs root (directivesOf arguments)).run (.start w) with
  | .ok _ s => s.report 0
  | .error failure s =>
    match failure.level? with
    | none => s.report 0
    | some level => (s.record (.logged ⟨level, .command, failure.message⟩)).report 1

/-- What a scanner reports when it fails. -/
def scanFailure (failure : Failure) : Log.Record :=
  ⟨.error, .scan,
    "failed to extract documentation because of error: " ++ failure.message⟩

/-- A scanner of the given name. -/
def runScanner (name : String) (marker : Marker) (arguments : List String) (w : World) : Report :=
  match ScanArguments.read arguments with
  | .ok wanted =>
    match (Scan.run wanted.root wanted.extension marker).run (.start w) with
    | .ok _ s => s.report 0
    | .error failure s => (s.record (.logged (scanFailure failure))).report 1
  | .error .helpAsked => ((Session.start w).record (.printed (ScanArguments.help name))).report 0
  | .error fault => ((Session.start w).record (.complained (fault.message ++ "\n"))).report 2

/-- Runs a program. `root` is the project of `x`. -/
def Program.run (programs : Programs) (root : Path) (program : Program)
    (arguments : List String) (w : World) : Report :=
  match program with
  | x => runX programs root arguments w
  | extractDocs => runScanner program.name .documentation arguments w
  | extractTodos => runScanner program.name .todo arguments w

end BuildRunner
