import BuildRunner.Environment
import BuildRunner.Tree.Resolve

/-!
# The world a command runs in

A file tree, a working directory and an environment. The operations take paths as they were
written: a relative path starts at the working directory, and links are followed, except where an
operation says otherwise. Each operation is refused with a fault or gives its answer, and those that
change the tree change it at one location.
-/

namespace BuildRunner

/-- A file tree, the location of the working directory, and the environment. -/
structure World where
  files : Directory
  workingDirectory : Location
  environment : Environment
  deriving Inhabited

namespace World

/-- The absolute path of a location. -/
def pathOf (location : Location) : Path :=
  ⟨"/" ++ RawText.intercalate "/" location⟩

/-- The absolute path of the working directory, as long as it exists. -/
def workingPath (w : World) : Except Fault Path :=
  if w.files.isDirectoryAt w.workingDirectory then .ok (pathOf w.workingDirectory)
  else .error .notFound

/-- Why a path is refused whatever the tree, if it is. -/
def badPath (p : Path) : Option Fault :=
  if p.raw.bytes.contains 0 then some .nulInPath
  else if p.raw = "" then some .notFound
  else if pathLimit ≤ p.raw.bytes.length then some .nameTooLong
  else none

/-- The location that steps lead to from where a path starts. -/
def locateSteps (w : World) (absolute follow : Bool) (steps : List Step) :
    Except Fault Location :=
  if absolute then w.files.resolve follow linkLimit [] steps
  else if w.files.isDirectoryAt w.workingDirectory then
    w.files.resolve follow linkLimit w.workingDirectory steps
  else .error .notFound

/-- The location a path leads to. `follow` tells whether a link that the path ends in is
followed. -/
def locate (w : World) (p : Path) (follow : Bool) : Except Fault Location :=
  match badPath p with
  | some fault => .error fault
  | none => w.locateSteps p.isAbsolute follow p.steps

/-- The node a path leads to. -/
def node (w : World) (p : Path) (follow : Bool) : Except Fault Node := do
  let location ← w.locate p follow
  match w.files.get? location with
  | some node => pure node
  | none => throw .notFound

/-- Whether a path leads to a directory. -/
def isDirectory (w : World) (p : Path) : Bool :=
  match w.node p true with
  | .ok (.directory _) => true
  | _ => false

/-- Whether a path leads to a file. -/
def isFile (w : World) (p : Path) : Bool :=
  match w.node p true with
  | .ok (.file ..) => true
  | _ => false

/-- Whether a path leads to an executable file. -/
def isExecutable (w : World) (p : Path) : Bool :=
  match w.node p true with
  | .ok (.file _ executable) => executable
  | _ => false

/-- The bytes of the file a path leads to. -/
def readBytes (w : World) (p : Path) : Except Fault ByteArray := do
  match ← w.node p true with
  | .file content _ => pure content
  | _ => throw .isDirectory

/-- The text of the file a path leads to. -/
def readText (w : World) (p : Path) : Except Fault String := do
  match String.fromUTF8? (← w.readBytes p) with
  | some text => pure text
  | none => throw .notText

/-- The directory a path leads to. -/
def readDirectory (w : World) (p : Path) : Except Fault Directory := do
  match ← w.node p true with
  | .directory entries => pure entries
  | _ => throw .notDirectory

/-- The absolute path, without links, of what a path leads to. -/
def canonical (w : World) (p : Path) : Except Fault Path :=
  (w.locate p true).map pathOf

/-- The world with another file tree. -/
def withFiles (w : World) (files : Directory) : World :=
  { w with files }

/-- The place in its parent directory that a path which ends in a name stands for, and what is
there. The parent must be a directory. -/
def place (w : World) (p : Path) : Except Fault (Location × Option Node) := do
  if let some fault := badPath p then throw fault
  let named := Path.filled p.segments
  match named.getLast? with
  | none => throw .alreadyExists
  | some last =>
    let parent ← w.locateSteps p.isAbsolute true (named.dropLast.map Step.ofSegment)
    unless w.files.isDirectoryAt parent do throw .notDirectory
    match Step.ofSegment last with
    | .name n =>
      if nameLimit < n.bytes.length then throw .nameTooLong
      pure (parent ++ [n], w.files.get? (parent ++ [n]))
    | _ => throw .alreadyExists

/-- Makes one directory, whose parent must exist. -/
def makeDirectory (w : World) (p : Path) : Except Fault World := do
  match ← w.place p with
  | (location, none) =>
    pure (w.withFiles (w.files.alter (fun _ => some (.directory .empty)) location))
  | (_, some _) => throw .alreadyExists

/-- Makes the first of the given directories, each the parent of the one before it, after the
others as far as they are missing. The world is the one reached, also when the last step was
refused. -/
def makeFirst (w : World) : List Path → World × Option Fault
  | [] => (w, some .notFound)
  | p :: parents =>
    match w.makeDirectory p with
    | .ok made => (made, none)
    | .error .notFound =>
      match w.makeFirst parents with
      | (reached, some fault) => (reached, some fault)
      | (reached, none) =>
        match reached.makeDirectory p with
        | .ok made => (made, none)
        | .error fault => (reached, if reached.isDirectory p then none else some fault)
    | .error fault => (w, if w.isDirectory p then none else some fault)

/-- Makes a directory and the missing ones above it. -/
def makeDirectories (w : World) (p : Path) : World × Option Fault :=
  w.makeFirst p.ancestors

/-- Removes what a path names: a directory with all below it, a file, or a link to one of these.
Where the path leads to nothing, nothing is removed. -/
def remove (w : World) (p : Path) : Except Fault World :=
  match w.node p true with
  | .error .notFound => .ok w
  | .error fault => .error fault
  | .ok _ => do
    let location ← w.locate p false
    pure (w.withFiles (w.files.alter (fun _ => none) location))

/-- The location at which writing to a path puts the file: that of the node the path leads to, or
the free place its last name stands for, through at most `links` links. -/
def target (w : World) : Nat → Path → Except Fault Location
  | links, p =>
    match w.locate p true with
    | .ok location => .ok location
    | .error .notFound => do
      match ← w.place p with
      | (location, none) => pure location
      | (location, some (.link linked)) =>
        match links with
        | 0 => throw .tooManyLinks
        | links + 1 =>
          let linked : Path := ⟨linked⟩
          w.target links ((pathOf location.dropLast).join linked)
      | (location, some _) => pure location
    | .error fault => .error fault

/-- Writes a file. A file that exists keeps its place and stays executable if it was. -/
def write (w : World) (p : Path) (content : ByteArray) (executable : Bool) :
    Except Fault World := do
  if p.raw.bytes.getLast? = some Path.slash then throw .isDirectory
  let location ← w.target linkLimit p
  match w.files.get? location with
  | some (.directory _) => throw .isDirectory
  | some (.file _ old) =>
    pure (w.withFiles (w.files.alter (fun _ => some (.file content (old || executable))) location))
  | _ => pure (w.withFiles (w.files.alter (fun _ => some (.file content executable)) location))

/-- Makes a link, at a place where nothing is. -/
def makeLink (w : World) (p : Path) (target : RawText) : Except Fault World := do
  match ← w.place p with
  | (location, none) => pure (w.withFiles (w.files.alter (fun _ => some (.link target)) location))
  | (_, some _) => throw .alreadyExists

/-- Removes the node a path names, a link itself and not what it leads to. -/
def delete (w : World) (p : Path) : Except Fault World := do
  let location ← w.locate p false
  pure (w.withFiles (w.files.alter (fun _ => none) location))

end World

end BuildRunner
