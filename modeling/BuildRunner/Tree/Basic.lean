import BuildRunner.Text.Raw

/-!
# File trees

A directory is a list of named nodes in the order in which it lists them; a node is a file, a link
or a directory. Names are raw texts, as are the targets of links. A location is the list of names
from the top directory down, with no link on the way. Reading at a location and altering one
location are the two operations all others are made of.
-/

namespace BuildRunner

mutual

/-- What a name in a directory stands for. -/
inductive Node where
  | file (content : ByteArray) (executable : Bool)
  /-- A symbolic link to a path that need not exist. -/
  | link (target : RawText)
  | directory (entries : Directory)

/-- Named nodes, in the order the directory lists them. -/
inductive Directory where
  | empty
  | entry (name : RawText) (node : Node) (rest : Directory)

end

deriving instance DecidableEq for Node, Directory

instance : Inhabited Directory := ⟨.empty⟩

/-- The names from the top directory down to a node. -/
abbrev Location := List RawText

/-- The three kinds of nodes. -/
inductive Kind where
  | file
  | link
  | directory
  deriving DecidableEq, Repr

/-- The kind of a node. -/
def Node.kind : Node → Kind
  | file .. => .file
  | link .. => .link
  | directory .. => .directory

namespace Directory

/-- The entries as pairs. -/
def toList : Directory → List (RawText × Node)
  | empty => []
  | entry name node rest => (name, node) :: rest.toList

/-- The directory with the given entries. -/
def ofList : List (RawText × Node) → Directory
  | [] => empty
  | (name, node) :: rest => entry name node (ofList rest)

/-- The names of the entries. -/
def names (d : Directory) : List RawText :=
  d.toList.map (·.1)

/-- What a name stands for. -/
def find? : Directory → RawText → Option Node
  | empty, _ => none
  | entry name node rest, wanted => if name = wanted then some node else rest.find? wanted

/-- The directory in which a name stands for a node: a known name keeps its place, a new one goes
to the end. -/
def put (name : RawText) (node : Node) : Directory → Directory
  | empty => entry name node empty
  | entry other old rest =>
    if other = name then entry other node rest else entry other old (rest.put name node)

/-- Putting a name changes what that name stands for and nothing else. -/
theorem find?_put (d : Directory) (name other : RawText) (node : Node) :
    (d.put name node).find? other = if name = other then some node else d.find? other := by
  fun_induction put name node d with
  | case1 => rfl
  | case2 => grind [find?]
  | case3 => grind [find?]

/-- The directory without a name. -/
def erase (name : RawText) : Directory → Directory
  | empty => empty
  | entry other node rest =>
    if other = name then rest.erase name else entry other node (rest.erase name)

/-- Erasing a name leaves nothing under it and changes no other. -/
theorem find?_erase (d : Directory) (name other : RawText) :
    (d.erase name).find? other = if name = other then none else d.find? other := by
  fun_induction erase name d with
  | case1 => simp [find?]
  | case2 => grind [find?]
  | case3 => grind [find?]

/-- The node at a location below a directory, the directory itself at the empty one. -/
def get? : Directory → Location → Option Node
  | d, [] => some (.directory d)
  | d, name :: below =>
    match d.find? name with
    | some (.directory sub) => sub.get? below
    | some other => if below = [] then some other else none
    | none => none

/-- The directory in which the node at a location, if its parent is a directory, is what `change`
makes of it: a new node, or none. -/
def alter (change : Option Node → Option Node) : Directory → Location → Directory
  | d, [] => d
  | d, [name] =>
    match change (d.find? name) with
    | some node => d.put name node
    | none => d.erase name
  | d, name :: next :: below =>
    match d.find? name with
    | some (.directory sub) => d.put name (.directory (sub.alter change (next :: below)))
    | _ => d

/-- Whether a location is a directory. -/
def isDirectoryAt (d : Directory) (location : Location) : Bool :=
  (d.get? location).any fun node => node.kind = .directory

end Directory

mutual

/-- The locations at and below a node that stands at `location`, with their kinds. -/
def Node.locations (location : Location) : Node → List (Location × Node)
  | .directory entries => (location, .directory entries) :: entries.locations location
  | node => [(location, node)]

/-- The locations below a directory that stands at `location`. -/
def Directory.locations (location : Location) : Directory → List (Location × Node)
  | .empty => []
  | .entry name node rest => node.locations (location ++ [name]) ++ rest.locations location

end

/-- The locations below a directory as raw texts with slashes, in the order of their bytes. -/
def Directory.listing (d : Directory) : List (RawText × Node) :=
  ((d.locations []).map fun (location, node) => (RawText.intercalate "/" location, node)).mergeSort
    fun a b => Text.leBytes a.1.bytes b.1.bytes

end BuildRunner
