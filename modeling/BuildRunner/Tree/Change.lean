import BuildRunner.Tree.Basic

/-!
# What differs between two trees

The changes that make one tree out of another, in an order in which they can be made: first what is
gone is removed, then directories are made from the top down and files written. Links are not made.
-/

namespace BuildRunner

/-- A change of a file tree. -/
inductive Change where
  | remove (location : Location)
  | makeDirectory (location : Location)
  | write (location : Location) (content : ByteArray)

namespace Directory

/-- The locations of a tree at which another tree has nothing of the same kind. -/
def removals (old new : Directory) : List Change :=
  (old.locations []).filterMap fun (location, node) =>
    match new.get? location with
    | some other => if other.kind = node.kind then none else some (.remove location)
    | none => some (.remove location)

/-- The directories and files of a tree that another tree lacks or has with another content. -/
def additions (old new : Directory) : List Change :=
  (new.locations []).filterMap fun (location, node) =>
    match node, old.get? location with
    | .directory _, some (.directory _) => none
    | .directory _, _ => some (.makeDirectory location)
    | .file content _, some (.file before _) =>
      if content.data = before.data then none else some (.write location content)
    | .file content _, _ => some (.write location content)
    | .link _, _ => none

/-- The changes that lead from one tree to another. -/
def changes (old new : Directory) : List Change :=
  old.removals new ++ old.additions new

end Directory

end BuildRunner
