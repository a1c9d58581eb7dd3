import BuildRunner.CommandLine.Program
import BuildRunner.Script.Run
import BuildRunner.Tree.Change

/-!
# The command line

The first argument names the program, the others are its arguments. A program runs on a picture of
the working directory, taken before it starts; what it changed is made on disk afterwards. Links and
all that lies elsewhere are not in the picture, and tools are run as scripts.
-/

namespace BuildRunner.Main

/-- Whether the content of a file says that it may be executed. -/
def isScript (content : ByteArray) : Bool :=
  content.data.toList.take 2 = Text.utf8 "#!"

/-- The files and directories below a directory on disk. -/
partial def picture (directory : IO.FS.DirEntry) : IO Directory := do
  let mut entries := Directory.empty
  for found in ← directory.path.readDir do
    match (← found.path.symlinkMetadata).type with
    | .dir => entries := entries.put found.fileName (.directory (← picture found))
    | .file =>
      let content ← IO.FS.readBinFile found.path
      entries := entries.put found.fileName (.file content (isScript content))
    | _ => pure ()
  return entries

/-- The tree in which a directory stands at a location and nothing else is. -/
def treeAt (directory : Directory) : Location → Directory
  | [] => directory
  | name :: names => .entry name (.directory (treeAt directory names)) .empty

/-- Makes one change on disk. What is gone already need not be removed. -/
def apply (change : Change) : IO Unit :=
  match change with
  | .remove location =>
    let path := (World.pathOf location).text
    try IO.FS.removeDirAll path catch _ => try IO.FS.removeFile path catch _ => pure ()
  | .makeDirectory location => IO.FS.createDirAll (World.pathOf location).text
  | .write location content => IO.FS.writeBinFile (World.pathOf location).text content

/-- The variables that programs look at. -/
def variableNames : List String :=
  ["PATH", "HOME", "RUST_LOG"] ++
    (["DOCS__WEB_FORMAT", "DOCS__MAN_FORMAT", "DOCS__SITE_DIR", "DOCS__MAN_SRC", "DOCS__MAN_OUT",
      "DOCS__WEB_MAN_OUT", "TOOLS__ZIG", "TOOLS__ASCIIDOCTOR"].map (Settings.variablePrefix ++ ·))

/-- The environment of the command line. -/
def environment : IO Environment := do
  let mut env : Environment := ⟨[]⟩
  for name in variableNames do
    match ← IO.getEnv name with
    | some value => env := env.put name value
    | none => pure ()
  return env

/-- The program of a name. -/
def program? (name : String) : Option Program :=
  [Program.x, .extractDocs, .extractTodos].find? fun program => program.name = name

/-- Runs a program in the working directory and gives its status. -/
def run (program : Program) (arguments : List String) : IO UInt32 := do
  let here : Path := ⟨(← IO.currentDir).toString⟩
  let location := Path.filled here.segments
  let shell : Node := .file ByteArray.empty true
  let files := (treeAt (← picture ⟨here.text, "."⟩) location).alter
    (fun old => old.or (some (.directory (.entry "sh" shell .empty)))) ["bin"]
  let world : World := ⟨files, location, ← environment⟩
  let report := program.run Script.programs here arguments world
  (files.changes report.world.files).forM apply
  (← IO.getStdout).putStr report.output
  (← IO.getStderr).putStr report.complaints
  return report.status.toUInt32

end BuildRunner.Main

/-- Runs the program that the first argument names. -/
def main (arguments : List String) : IO UInt32 := do
  match arguments with
  | name :: rest =>
    match BuildRunner.Main.program? name with
    | some program => BuildRunner.Main.run program rest
    | none =>
      (← IO.getStderr).putStrLn ("no program of this name: " ++ name)
      return 2
  | [] =>
    (← IO.getStderr).putStrLn "the name of a program is missing"
    return 2
