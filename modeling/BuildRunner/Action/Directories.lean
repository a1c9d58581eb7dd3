import BuildRunner.Context

/-!
# Changes below the root of a project

Removing and making directories. The root is taken from the working directory where it is relative,
and paths from the root. Cleaning removes what Zig leaves behind; preparing the documentation makes
the directories that manual pages go to.
-/

namespace BuildRunner

/-- Removes what a path names, if anything. -/
def Run.removePath (path : Path) : Run Unit := do
  let w ← Run.lift (fun fault => .shell (.removing path fault)) ((← Run.world).remove path)
  Run.setWorld w

/-- Makes a directory and those missing above it. -/
def Run.makeDirectory (path : Path) : Run Unit := do
  let (w, refused) := (← Run.world).makeDirectories path
  Run.setWorld w
  match refused with
  | none => pure ()
  | some fault => throw (.shell (.creating path fault))

namespace Context

/-- The absolute path of the root. -/
def base (cx : Context) : Run Path := do
  let here ← Run.lift (fun fault => .shell (.noWorkingDirectory fault)) (← Run.world).workingPath
  return here.join cx.root

/-- What Zig leaves in the root of a project. -/
def artifacts : List String := ["zig-out", ".zig-cache"]

/-- Removes paths below a base, each announced. -/
def removeAll (base : Path) : List String → Run Unit
  | [] => pure ()
  | name :: names => do
    Run.log .info .clean ("rm -rf " ++ name)
    Run.removePath (base.join ⟨name⟩)
    removeAll base names

/-- Removes what Zig left behind. -/
def clean (cx : Context) : Run Unit := do
  let base ← cx.base
  removeAll base artifacts

/-- Makes directories below a base, each reported. -/
def makeAll (base : Path) : List String → Run Unit
  | [] => pure ()
  | name :: names => do
    let path := base.join ⟨name⟩
    Run.makeDirectory path
    Run.log .debug .docs ("    Output dir: " ++ path.text)
    makeAll base names

/-- Checks that Asciidoctor is there and makes the directories for manual pages. -/
def prepareDocs (cx : Context) : Run Unit := do
  let _ ← cx.needAsciidoctor
  let base ← cx.base
  makeAll base [cx.docs.manOut, cx.docs.webManOut]

end Context

end BuildRunner
