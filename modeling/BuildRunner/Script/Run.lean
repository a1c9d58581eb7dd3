import BuildRunner.Script.Command
import BuildRunner.Session

/-!
# Running scripts

Scripts as programs: a file that starts with `#!` and the path of the shell is run command by
command. The commands are those that are part of the shell; any other is not found. A script ends
with its last command, at `exit`, or by a signal that it sends to itself.
-/

namespace BuildRunner.Script

/-- The interpreter of scripts. -/
def shellPath : String := "/bin/sh"

/-- A script that runs: its parameters, the world, what it wrote so far, and how it ended, once it
has. -/
structure Running where
  parameters : Parameters
  world : World
  output : String
  complaints : String
  ending : Option ExitStatus

/-- What a command does: how it ends, what it writes, what it complains about, and whether the
script ends with it. -/
structure Effect where
  status : Nat
  output : String
  complaint : String
  ending : Option ExitStatus

/-- The effect of a command that ends with a status and writes something. -/
def Effect.writing (status : Nat) (output : String) : Effect := ⟨status, output, "", none⟩

/-- The value of octal digits. -/
def octalValue (digits : List Char) : Nat :=
  digits.foldl (fun number c => number * 8 + (c.toNat - '0'.toNat)) 0

/-- Whether a character is an octal digit. -/
def isOctal (c : Char) : Bool :=
  '0' ≤ c && c ≤ '7'

/-- A text in which a backslash and what follows it stand for a character, and whether the text was
cut off by such an escape; `fuel` bounds the steps. -/
def echoed : Nat → List Char → List Char × Bool
  | 0, _ => ([], false)
  | _ + 1, [] => ([], false)
  | fuel + 1, '\\' :: c :: rest =>
    let one (d : Char) : List Char × Bool :=
      let (text, cut) := echoed fuel rest
      (d :: text, cut)
    match c with
    | '\\' => one '\\'
    | 'a' => one '\x07'
    | 'b' => one '\x08'
    | 'c' => ([], true)
    | 'f' => one '\x0c'
    | 'n' => one '\n'
    | 'r' => one '\r'
    | 't' => one '\t'
    | 'v' => one '\x0b'
    | '0' =>
      let digits := (rest.takeWhile isOctal).take 3
      let (text, cut) := echoed fuel (rest.drop digits.length)
      (Char.ofNat (octalValue digits % 256) :: text, cut)
    | _ =>
      let (text, cut) := echoed fuel rest
      ('\\' :: c :: text, cut)
  | fuel + 1, c :: rest =>
    let (text, cut) := echoed fuel rest
    (c :: text, cut)

/-- What `echo` writes. -/
def echo (arguments : List String) : String :=
  let (lineEnd, arguments) :=
    match arguments with
    | "-n" :: rest => ("", rest)
    | _ => ("\n", arguments)
  let content := (String.intercalate " " arguments).toList
  let (text, cut) := echoed (content.length + 1) content
  String.ofList text ++ if cut then "" else lineEnd

/-- The number of a signal given by a number or by its name. -/
def signalNumber? (name : String) : Option Nat :=
  match name with
  | "HUP" => some 1
  | "INT" => some 2
  | "QUIT" => some 3
  | "ABRT" => some 6
  | "KILL" => some 9
  | "USR1" => some 10
  | "USR2" => some 12
  | "PIPE" => some 13
  | "ALRM" => some 14
  | "TERM" => some 15
  | _ => Decimal.natural? name.toList

/-- The signal that `kill` sends to the script itself. -/
def ownSignal? : List String → Option Nat
  | ["-s", name, target] => if target = ownNumber then signalNumber? name else none
  | [option, target] =>
    match option.toList with
    | '-' :: name => if target = ownNumber then signalNumber? (String.ofList name) else none
    | _ => none
  | [target] => if target = ownNumber then some 15 else none
  | _ => none

/-- What a command does where it runs. -/
def effect (running : Running) (line : Nat) (name : String) (arguments : List String) : Effect :=
  let complain (status : Nat) (text : String) : Effect :=
    ⟨status, "", running.parameters.script ++ ": " ++ toString line ++ ": " ++ text ++ "\n", none⟩
  match name with
  | "echo" => .writing 0 (echo arguments)
  | "pwd" => .writing 0 (ofBytes (World.pathOf running.world.workingDirectory).raw.bytes ++ "\n")
  | ":" => .writing 0 ""
  | "true" => .writing 0 ""
  | "false" => .writing 1 ""
  | "exit" =>
    match arguments with
    | [] =>
      let status := running.parameters.status
      ⟨status, "", "", some (.code status)⟩
    | code :: _ =>
      match Decimal.natural? code.toList with
      | some n => ⟨n % 256, "", "", some (.code (n % 256))⟩
      | none =>
        { complain 2 ("exit: Illegal number: " ++ code) with ending := some (.code 2) }
  | "kill" =>
    match ownSignal? arguments with
    | some 0 => .writing 0 ""
    | some number => ⟨0, "", "", some (.signal number)⟩
    | none => complain 1 "kill: No such process"
  | _ => complain 127 (name ++ ": not found")

/-- Why a file cannot be written, in the words of the shell. -/
def writeFault : Fault → String
  | .notFound => "Directory nonexistent"
  | .notDirectory => "Directory nonexistent"
  | .isDirectory => "Is a directory"
  | .permissionDenied => "Permission denied"
  | .nameTooLong => "File name too long"
  | .tooManyLinks => "Too many levels of symbolic links"
  | fault => fault.message

/-- Where output goes. -/
inductive Sink where
  | output
  | complaints
  | file (path : Path) (before : ByteArray)

/-- Opens the files of redirections one after the other, and gives the last sink. A file that cannot
be opened gives a complaint. -/
def openSinks (parameters : Parameters) (w : World) (sink : Sink) :
    List Redirection → World × Except String Sink
  | [] => (w, .ok sink)
  | .complaints :: redirections => openSinks parameters w .complaints redirections
  | .file append word :: redirections =>
    let target := String.ofList (plainWord parameters word)
    let path : Path := ⟨⟨toBytes target⟩⟩
    let before :=
      if append then (w.readBytes path).toOption.getD ByteArray.empty else ByteArray.empty
    match w.write path before false with
    | .ok w => openSinks parameters w (.file path before) redirections
    | .error fault => (w, .error ("cannot create " ++ target ++ ": " ++ writeFault fault))

/-- The script after something was written to a sink. -/
def Running.write (running : Running) (sink : Sink) (text : String) : Running :=
  match sink with
  | .output => { running with output := running.output ++ text }
  | .complaints => { running with complaints := running.complaints ++ text }
  | .file path before =>
    match running.world.write path (before ++ ByteArray.mk (toBytes text).toArray) false with
    | .ok world => { running with world }
    | .error _ => running

/-- Whether a condition holds after a status. -/
def Condition.holds (status : Nat) : Condition → Bool
  | always => true
  | success => status = 0
  | failure => status ≠ 0

/-- Whether a script ends when the output of a command cannot be redirected. -/
def isSpecial (name : String) : Bool :=
  name = "exit" || name = ":"

/-- The script after one more command. -/
def Running.step (running : Running) (command : Command) : Running :=
  if running.ending.isSome || !command.condition.holds running.parameters.status then running
  else
    let parameters := running.parameters
    let ended (running : Running) (status : Nat) : Running :=
      { running with parameters := { parameters with status } }
    let (world, sink) := openSinks parameters running.world .output command.redirections
    let running := { running with world }
    let called := fields parameters command.words
    match sink with
    | .error text =>
      let complaint := parameters.script ++ ": " ++ toString command.line ++ ": " ++ text ++ "\n"
      let running := ended (running.write .complaints complaint) 2
      if called.head?.any isSpecial then { running with ending := some (.code 2) } else running
    | .ok sink =>
      match called with
      | [] => ended running 0
      | name :: arguments =>
        let effect := effect running command.line name arguments
        let written := (running.write sink effect.output).write .complaints effect.complaint
        ended { written with ending := effect.ending } effect.status

/-- Runs a script in a world whose working directory is its own. -/
def runCommands (w : World) (script : String) (arguments : List String)
    (commands : List Command) : Outcome :=
  let start : Running := ⟨⟨script, arguments, 0⟩, w, "", "", none⟩
  let running := commands.foldl Running.step start
  { status := running.ending.getD (.code running.parameters.status)
    files := running.world.files
    output := Text.readable (toBytes running.output)
    complaints := Text.readable (toBytes running.complaints) }

/-- The interpreter that a script names in its first line. -/
def interpreter? (text : String) : Option Path :=
  match text.toList with
  | '#' :: '!' :: rest =>
    let line := skipSpaces (rest.takeWhile (· ≠ '\n'))
    let path := String.ofList (line.takeWhile fun c => c ≠ ' ' && c ≠ '\t')
    some ⟨⟨toBytes path⟩⟩
  | _ => none

/-- Scripts as programs. A script that cannot be read ends with the status for that. -/
def programs : Programs := fun launch w => do
  let content ← w.readBytes launch.program
  let text := ofBytes content.data.toList
  let interpreter ←
    match interpreter? text with
    | some path => pure path
    | none => throw .notExecutableFormat
  if interpreter = ⟨shellPath⟩ then
    let directory ← w.locate launch.directory true
    let inside := { w with workingDirectory := directory }
    let script := ofBytes launch.program.raw.bytes
    let arguments := launch.arguments.map fun argument => ofBytes (Text.utf8 argument)
    match readCommands? text with
    | some commands => return runCommands inside script arguments commands
    | none =>
      let complaint := launch.program.text ++ ": Syntax error\n"
      return ⟨.code 2, w.files, "", complaint⟩
  else
    match ← w.node interpreter true with
    | .file _ true => throw .notExecutableFormat
    | _ => throw .permissionDenied

end BuildRunner.Script
