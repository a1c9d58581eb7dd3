import BuildRunner.Failure
import BuildRunner.Log.Basic
import BuildRunner.Text.Utf8
import BuildRunner.World

/-!
# Sessions

A session is the state a run changes: the world, how much the output stream still takes, and the
trace of all that happened so far. A run is a computation that changes the session and may end in a
failure; what it did before that stays done.

What was written, logged, started or printed are views of the one trace, so their order among each
other is kept.
-/

namespace BuildRunner

/-- A program that is started: its file, its arguments, and the directory it starts in. -/
structure Launch where
  program : Path
  arguments : List String
  directory : Path
  deriving DecidableEq, Repr

/-- How a program ended. -/
inductive ExitStatus where
  | code (code : Nat)
  | signal (number : Nat)
  deriving DecidableEq, Repr

/-- What a program did: how it ended, the file tree it left, and what it wrote on its own. -/
structure Outcome where
  status : ExitStatus
  files : Directory
  output : String
  complaints : String

/-- The behaviour of programs: what starting one does in a world, unless it cannot be started. -/
abbrev Programs := Launch → World → Except Fault Outcome

/-- Something that happened in a session. -/
inductive Event where
  /-- Bytes went to the output stream. -/
  | wrote (bytes : List UInt8)
  | logged (record : Log.Record)
  | launched (launch : Launch)
  /-- A program wrote to its standard output. -/
  | printed (text : String)
  /-- A program wrote to its standard error. -/
  | complained (text : String)
  /-- A recipe began. -/
  | began (name : String)
  deriving DecidableEq, Repr

/-- The state of a run. -/
structure Session where
  world : World
  /-- How many bytes the output stream still takes; without a number it takes all. -/
  room : Option Nat
  trace : List Event
  deriving Inhabited

namespace Session

/-- The bytes written to the output stream. -/
def output (s : Session) : List UInt8 :=
  s.trace.flatMap fun
    | .wrote bytes => bytes
    | _ => []

/-- The log. -/
def log (s : Session) : List Log.Record :=
  s.trace.filterMap fun
    | .logged record => some record
    | _ => none

/-- The programs started, in order. -/
def launches (s : Session) : List Launch :=
  s.trace.filterMap fun
    | .launched launch => some launch
    | _ => none

/-- What programs wrote to their standard output. -/
def printed (s : Session) : String :=
  String.join (s.trace.filterMap fun
    | .printed text => some text
    | _ => none)

/-- The recipes begun, in order. -/
def begun (s : Session) : List String :=
  s.trace.filterMap fun
    | .began name => some name
    | _ => none

/-- The session in which one more thing happened. -/
def record (s : Session) (event : Event) : Session :=
  { s with trace := s.trace ++ [event] }

end Session

/-- A computation that changes a session and may fail; a failure keeps the changes before it. -/
abbrev Run := EStateM Failure Session

namespace Run

/-- Notes that something happened. -/
def note (event : Event) : Run Unit :=
  modify fun s => s.record event

/-- Logs a text. -/
def log (level : Log.Level) (part : Log.Part) (text : String) : Run Unit :=
  note (.logged ⟨level, part, text⟩)

/-- The world as it is. -/
def world : Run World :=
  return (← get).world

/-- Puts another world in place. -/
def setWorld (w : World) : Run Unit :=
  modify fun s => { s with world := w }

/-- The answer of an operation that may be refused, the fault made a failure. -/
def lift {α : Type} (failure : Fault → Failure) : Except Fault α → Run α
  | .ok answer => pure answer
  | .error fault => throw (failure fault)

/-- Writes bytes to the output stream. When not all of them fit, those that do are written and the
stream fails. -/
def writeBytes (bytes : List UInt8) : Run Unit := do
  match (← get).room with
  | none => note (.wrote bytes)
  | some room =>
    modify fun s => { s with room := some (room - bytes.length) }
    note (.wrote (bytes.take room))
    if room < bytes.length then throw (.io .streamFull)

/-- Writes a text to the output stream. -/
def write (text : String) : Run Unit :=
  writeBytes (Text.utf8 text)

end Run

end BuildRunner
