import BuildRunner.Text.Raw

/-!
# Paths as written

A path is a raw text; what it names depends on a file tree, which this module does not look at. Its
segments are the pieces between slashes. Empty segments and `.` name nothing of their own, except
a `.` that a relative path starts with.

Joining keeps both paths as they are written. The other operations compare paths component by
component and give paths that are parts of the given one. Only what is shown of a path is a text.
-/

namespace BuildRunner

/-- A path, absolute or relative, as it was written. -/
structure Path where
  raw : RawText
  deriving DecidableEq, Repr, Inhabited

namespace Path

/-- The slash between two segments. -/
def slash : UInt8 := 0x2F

/-- A path as it is shown. -/
def text (p : Path) : String :=
  p.raw.text

/-- A part of a path that is one step for whoever follows it. -/
inductive Component where
  /-- The slash that an absolute path starts with. -/
  | root
  /-- A `.` that a relative path starts with. -/
  | here
  /-- A `..` segment. -/
  | up
  | name (name : RawText)
  deriving DecidableEq, Repr

/-- The segment that stands for a component. -/
def Component.segment : Component → RawText
  | root => "/"
  | here => "."
  | up => ".."
  | name n => n

/-- The pieces of a path between slashes. -/
def segments (p : Path) : List RawText :=
  p.raw.pieces slash

/-- The segments that are not empty. -/
def filled (segments : List RawText) : List RawText :=
  segments.filter fun segment => segment ≠ ""

/-- A path that starts with a slash. -/
def isAbsolute (p : Path) : Bool :=
  p.raw.bytes.head? = some slash

/-- Whether a segment behind the first one names nothing. -/
def isFiller (segment : RawText) : Bool :=
  segment = "" || segment = "."

/-- The component a segment stands for, behind the first one. -/
def componentOf (segment : RawText) : Component :=
  if segment = ".." then .up else .name segment

/-- The start of a path that is not an ordinary segment: the slash of an absolute path or the
`.` of a relative one. -/
def lead (p : Path) : Option Component :=
  if p.isAbsolute then some .root
  else if p.segments.head? = some ("." : RawText) then some .here
  else none

/-- The segments behind the lead. -/
def body (p : Path) : List RawText :=
  if p.lead.isSome then p.segments.tail else p.segments

/-- The components of segments behind the lead. -/
def bodyComponents (segments : List RawText) : List Component :=
  (segments.filter fun s => !isFiller s).map componentOf

/-- The components of a path. -/
def components (p : Path) : List Component :=
  p.lead.toList ++ bodyComponents p.body

/-- The segments without the fillers at their end. -/
def dropFillers (segments : List RawText) : List RawText :=
  (segments.reverse.dropWhile isFiller).reverse

/-- The path with the given lead and segments. -/
def ofParts (lead : Option Component) (body : List RawText) : Path :=
  let rest := RawText.intercalate "/" body
  match lead with
  | some .root => ⟨"/" ++ rest⟩
  | some front => ⟨if body.isEmpty then front.segment else front.segment ++ "/" ++ rest⟩
  | none => ⟨rest⟩

/-- `relative` as seen from `base`: an absolute path stands alone, any other is written behind the
base with one slash between them. -/
def join (base relative : Path) : Path :=
  if relative.isAbsolute || base.raw = "" then relative
  else if base.raw.bytes.getLast? = some slash then ⟨base.raw ++ relative.raw⟩
  else ⟨base.raw ++ "/" ++ relative.raw⟩

/-- The base followed by components, joined one after the other. -/
def joinComponents (base : Path) (components : List Component) : Path :=
  components.foldl (fun p c => p.join ⟨c.segment⟩) base

/-- The last component, if it is a name. -/
def fileName? (p : Path) : Option RawText :=
  match p.components.getLast? with
  | some (.name n) => some n
  | _ => none

/-- The path without its last component; the root and the empty path have no parent. -/
def parent? (p : Path) : Option Path :=
  match dropFillers p.body with
  | [] => if p.lead = some .here then some ⟨""⟩ else none
  | segments => some (ofParts p.lead (dropFillers segments.dropLast))

/-- A path, its parent, the parent's parent and so on; `count` bounds how many. -/
def ancestorsFrom : Nat → Path → List Path
  | 0, p => [p]
  | count + 1, p =>
    match p.parent? with
    | none => [p]
    | some parent => p :: ancestorsFrom count parent

/-- A path and all paths above it, the nearest first. -/
def ancestors (p : Path) : List Path :=
  ancestorsFrom p.segments.length p

/-- The segments left when components are taken from their front. -/
def stripBody : List RawText → List Component → Option (List RawText)
  | segments, [] => some segments
  | [], _ :: _ => none
  | segment :: segments, component :: components =>
    if isFiller segment then stripBody segments (component :: components)
    else if componentOf segment = component then stripBody segments components
    else none

/-- The path as seen from `base`, when the components of `base` are the first ones of the path. -/
def stripPrefix? (p base : Path) : Option Path :=
  let rest (segments : List RawText) : Path :=
    ofParts none (dropFillers (segments.dropWhile isFiller))
  match p.lead, base.components with
  | lead, [] => some (ofParts lead (dropFillers p.body))
  | none, components => (stripBody p.body components).map rest
  | some front, component :: components =>
    if front = component then (stripBody p.body components).map rest else none

/-- The components that lead from the place `base` names to the place `p` names: `none` where the
way back cannot be written. -/
def componentsFrom : List Component → List Component → Option (List Component)
  | [], base => some (base.map fun _ => .up)
  | rest, [] => some rest
  | a :: rest, b :: base =>
    if a = b then componentsFrom rest base
    else if (b :: base).contains .up then none
    else some ((b :: base).map (fun _ => Component.up) ++ a :: rest)

/-- An absolute path as seen from another absolute one; the path itself where that cannot be
written. -/
def seenFrom (p base : Path) : Path :=
  match componentsFrom p.components base.components with
  | some components => joinComponents ⟨""⟩ components
  | none => p

end Path

end BuildRunner
