import BuildRunner.World

/-!
# Finding programs

A program given by a path of several components is that file or none. A program given by a bare
name is the first file of that name in the directories of `PATH`; a `~` in front of such a directory
stands for the home directory. A program is a file, perhaps through links, that may be executed.
-/

namespace BuildRunner

/-- The directories of a search path, in which a colon stands between two. -/
def searchDirectories (searchPath : String) : List Path :=
  (Text.pieces ':' searchPath).map fun piece : String => ⟨piece⟩

/-- A directory in which a first component `~` stands for the home directory, if one is known. -/
def Path.underHome (directory : Path) (home : Option String) : Path :=
  match directory.components, home with
  | .name "~" :: rest, some home =>
    if home = "" then directory else Path.joinComponents ⟨home⟩ rest
  | _, _ => directory

/-- The components of a path without a `.` in front. -/
def Path.componentsBelow (p : Path) : List Path.Component :=
  p.components.filter (· ≠ .here)

namespace World

/-- The files that a program may be, the one with precedence first. -/
def programCandidates (w : World) (program : Path) : List Path :=
  if 1 < program.components.length then
    if program.isAbsolute then [program]
    else
      match w.workingPath with
      | .ok here => [here.joinComponents program.componentsBelow]
      | .error _ => []
  else
    match w.environment.get? "PATH" with
    | none => []
    | some searchPath =>
      (searchDirectories searchPath).map fun directory =>
        (directory.underHome (w.environment.get? "HOME")).join program

/-- The file that a program is. -/
def findProgram? (w : World) (program : Path) : Option Path :=
  (w.programCandidates program).find? w.isExecutable

end World

end BuildRunner
