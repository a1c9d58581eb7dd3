import BuildRunner.World

/-!
# Walking a tree

A walk visits a node and, if it is a directory, all below it, siblings in the order of the bytes of
their names. Links below the start are visited and not followed. A start that is a link to a
directory is visited as a link, and then the directory is walked.
-/

namespace BuildRunner

/-- A node met on a walk: the path that leads there, its name and its kind. -/
structure Visit where
  path : Path
  name : RawText
  kind : Kind
  deriving DecidableEq, Repr

/-- What is grouped under names, put in the order of the names and joined. -/
def inNameOrder {α : Type} (groups : List (RawText × List α)) : List α :=
  (groups.mergeSort fun a b => Text.leBytes a.1.bytes b.1.bytes).flatMap (·.2)

mutual

/-- The walk of a node with a name, at a path. -/
def Node.walk (path : Path) (name : RawText) : Node → List Visit
  | .directory entries =>
    ⟨path, name, .directory⟩ :: inNameOrder (entries.walkEach path)
  | .file .. => [⟨path, name, .file⟩]
  | .link _ => [⟨path, name, .link⟩]

/-- The walk of each entry of a directory at a path, under the entry's name. -/
def Directory.walkEach (path : Path) : Directory → List (RawText × List Visit)
  | .empty => []
  | .entry name node rest => (name, node.walk (path.join ⟨name⟩) name) :: rest.walkEach path

end

/-- The walk of everything below a directory at a path. -/
def Directory.walk (d : Directory) (path : Path) : List Visit :=
  inNameOrder (d.walkEach path)

/-- The walk from a path, unless nothing can be found there. -/
def World.walk (w : World) (start : Path) : Except Fault (List Visit) := do
  let name := start.fileName?.getD start.raw
  match ← w.node start false with
  | .directory entries => pure (⟨start, name, .directory⟩ :: entries.walk start)
  | .file .. => pure [⟨start, name, .file⟩]
  | .link _ =>
    match ← w.node start true with
    | .directory entries => pure (⟨start, name, .link⟩ :: entries.walk start)
    | _ => pure [⟨start, name, .link⟩]

/-- Whether a visit is one of a file whose name, as it is shown, ends in `suffix`. -/
def Visit.isFileNamed (suffix : String) (visit : Visit) : Bool :=
  visit.kind = .file && suffix.toList.isSuffixOf visit.name.text.toList

end BuildRunner
