import BuildRunner.Scan.Listing
import BuildRunner.Scan.Marker
import BuildRunner.Session
import BuildRunner.Tree.Walk

/-!
# Scanning a tree

A scan lists the marked lines of all files below a root whose names end in a dot and an extension.
A root that cannot be walked is reported and gives no files. A file that cannot be read as text ends
the scan; the files before it are listed by then.
-/

namespace BuildRunner.Scan

/-- The files of a walk whose names end in a dot and the extension. -/
def select (extension : String) (visits : List Visit) : List Path :=
  (visits.filter (Visit.isFileNamed ("." ++ extension))).map (·.path)

/-- The files below a root that a scan reads, in the order of the walk. -/
def candidates (root : Path) (extension : String) : Run (List Path) := do
  match (← Run.world).walk root with
  | .ok visits => pure (select extension visits)
  | .error fault =>
    Run.log .warn .scan ("skipping " ++ walkMessage root fault)
    pure []

/-- The marked lines of a file. -/
def extractFile (path : Path) (marker : Marker) : Run (List String) := do
  let text ← Run.lift (.extract path) ((← Run.world).readText path)
  pure (marker.extract text)

/-- Lists one file and tells how many blocks that made, one or none. -/
def listFile (marker : Marker) (path : Path) : Run Nat := do
  let lines ← extractFile path marker
  Run.log .debug .scan (path.text ++ ": " ++ toString lines.length ++ " line(s)")
  if lines.isEmpty && !marker.listsEmptyFiles then pure 0
  else
    Run.write (Listing.block path lines)
    pure 1

/-- Lists files one after the other and counts the blocks. -/
def listFiles (marker : Marker) : List Path → Run Nat
  | [] => pure 0
  | path :: paths => do
    let block ← listFile marker path
    let blocks ← listFiles marker paths
    pure (block + blocks)

/-- Scans a tree and counts the blocks. -/
def run (root : Path) (extension : String) (marker : Marker) : Run Nat := do
  listFiles marker (← candidates root extension)

end BuildRunner.Scan
