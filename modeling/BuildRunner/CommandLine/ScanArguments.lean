import BuildRunner.Path.Basic

/-!
# The command line of the scanners

A scanner takes the directory to walk and the extension of the files to read, each with a default.
The extension is an option, given with its value in one argument or in two; the directory is the one
argument that is no option. Behind the argument `--` nothing is an option.

What was given last is settled only when the next argument does not belong to it or when there is
none: only then an option without its value, an option given twice or an empty directory is refused.
So an argument that has no place at all is refused before what was given last is.
-/

namespace BuildRunner

/-- What a scanner is asked to do. -/
structure ScanArguments where
  root : Path
  extension : String
  deriving DecidableEq, Repr, Inhabited

/-- Why the arguments of a scanner are not accepted. -/
inductive UsageFault where
  /-- An argument that has no place. -/
  | unknownArgument (argument : String)
  | missingExtension
  | missingRoot
  | repeatedExtension
  /-- A value for the option that asks for help. -/
  | unexpectedValue (value : String)
  /-- Help was asked for. -/
  | helpAsked
  deriving DecidableEq, Repr

/-- The first line of the text for a usage fault. -/
def UsageFault.message : UsageFault → String
  | unknownArgument argument => "error: unexpected argument '" ++ argument ++ "' found"
  | missingExtension =>
    "error: a value is required for '--extension <EXTENSION>' but none was supplied"
  | missingRoot => "error: a value is required for '[ROOT]' but none was supplied"
  | repeatedExtension =>
    "error: the argument '--extension <EXTENSION>' cannot be used multiple times"
  | unexpectedValue value =>
    "error: unexpected value '" ++ value ++ "' for '--help' found; no more were expected"
  | helpAsked => "Command line shared by the scanner binaries"

namespace ScanArguments

/-- What was given last and is yet to be accepted. -/
inductive Pending where
  | nothing
  /-- The option for the extension, which waits for its value or has it. -/
  | extension (value : Option String)
  | root (root : String)
  deriving DecidableEq, Repr

/-- What is known of the arguments read so far: what is accepted, and what is pending. -/
structure Reading where
  root : Option String
  extension : Option String
  pending : Pending
  /-- Whether the argument `--` was read. -/
  plain : Bool
  deriving DecidableEq, Repr

/-- How an argument is taken where options are looked for. -/
inductive Shape where
  | separator
  /-- An option by its name, with a value in the same argument or without. -/
  | long (name : String) (value : Option String)
  /-- Letters behind one hyphen. -/
  | short (first : Char)
  | value
  deriving DecidableEq, Repr

/-- The name and the value of an option, cut at the first equals sign. -/
def cutOption (cs : List Char) : String × Option String :=
  let name := String.ofList (cs.takeWhile (· ≠ '='))
  match cs.dropWhile (· ≠ '=') with
  | [] => (name, none)
  | _ :: value => (name, some (String.ofList value))

/-- The shape of an argument. A hyphen alone is a value. -/
def shape (argument : String) : Shape :=
  match argument.toList with
  | '-' :: '-' :: [] => .separator
  | '-' :: '-' :: rest =>
    let (name, value) := cutOption rest
    .long name value
  | '-' :: c :: _ => .short c
  | _ => .value

namespace Reading

/-- Nothing is read yet. -/
def start : Reading := ⟨none, none, .nothing, false⟩

/-- Accepts an extension. -/
def acceptExtension (reading : Reading) (value : String) : Except UsageFault Reading :=
  match reading.extension with
  | some _ => .error .repeatedExtension
  | none => .ok { reading with extension := some value }

/-- Accepts what is pending. -/
def settle (reading : Reading) : Except UsageFault Reading :=
  let settled := { reading with pending := .nothing }
  match reading.pending with
  | .nothing => .ok settled
  | .extension none => .error .missingExtension
  | .extension (some value) => settled.acceptExtension value
  | .root root => if root = "" then .error .missingRoot else .ok { settled with root := some root }

/-- Whether a directory was given. -/
def hasRoot (reading : Reading) : Bool :=
  reading.root.isSome || match reading.pending with
    | .root _ => true
    | _ => false

/-- Reads an argument that is no option: the directory. -/
def addRoot (reading : Reading) (argument : String) : Except UsageFault Reading :=
  if reading.hasRoot then .error (.unknownArgument argument)
  else do
    let reading ← reading.settle
    return { reading with pending := .root argument }

/-- Reads the option for the extension. -/
def addExtension (reading : Reading) (value : Option String) : Except UsageFault Reading := do
  let reading ← reading.settle
  match value with
  | some value => reading.acceptExtension value
  | none => return { reading with pending := .extension none }

/-- Reads one more argument. -/
def add (reading : Reading) (argument : String) : Except UsageFault Reading :=
  if reading.plain then reading.addRoot argument
  else
    match shape argument with
    | .separator => .ok { reading with plain := true }
    | .long name value =>
      if name = "extension" then reading.addExtension value
      else if name = "help" then do
        match value with
        | some value => throw (.unexpectedValue value)
        | none =>
          let _ ← reading.settle
          throw .helpAsked
      else .error (.unknownArgument ("--" ++ name))
    | .short c => do
      if c = 'h' then
        let _ ← reading.settle
        throw .helpAsked
      else throw (.unknownArgument ("-" ++ String.ofList [c]))
    | .value =>
      match reading.pending with
      | .extension none => .ok { reading with pending := .extension (some argument) }
      | _ => reading.addRoot argument

end Reading

/-- The arguments of a scanner, read from the front. -/
def read (arguments : List String) : Except UsageFault ScanArguments := do
  let reading ← arguments.foldlM Reading.add .start
  let reading ← reading.settle
  return ⟨⟨reading.root.getD "."⟩, reading.extension.getD "zig"⟩

/-- The text that answers a request for help, for a scanner of the given name. -/
def help (scanner : String) : String :=
  "Command line shared by the scanner binaries\n\nUsage: " ++ scanner ++ " [OPTIONS] [ROOT]\n\n"
    ++ "Arguments:\n  [ROOT]  Directory to walk [default: .]\n\n"
    ++ "Options:\n      --extension <EXTENSION>  "
    ++ "Extension of the files to read, without the dot [default: zig]\n"
    ++ "  -h, --help                   Print help\n"

end ScanArguments

end BuildRunner
