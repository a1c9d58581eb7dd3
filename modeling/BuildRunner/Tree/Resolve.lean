import BuildRunner.Fault
import BuildRunner.Path.Basic
import BuildRunner.Tree.Basic

/-!
# Following a path through a file tree

A path is followed step by step from a directory. A link on the way is replaced by the steps of
its target; at most forty links are followed. The last step can be left unfollowed, so that a link
there is found itself.
-/

namespace BuildRunner

/-- One step of a path. -/
inductive Step where
  | name (name : RawText)
  | up
  /-- Stay where one is, which must be a directory. -/
  | stay
  deriving DecidableEq, Repr

/-- The step of a segment. -/
def Step.ofSegment (segment : RawText) : Step :=
  if segment = "." then .stay else if segment = ".." then .up else .name segment

/-- The steps of a path. A slash at the end asks for a directory. -/
def Path.steps (p : Path) : List Step :=
  let named := (Path.filled p.segments).map Step.ofSegment
  if p.raw.bytes.getLast? = some Path.slash then named ++ [.stay] else named

/-- How many links one path may lead through. -/
def linkLimit : Nat := 40

/-- How many bytes a name may have. -/
def nameLimit : Nat := 255

/-- How many bytes a path must stay below. -/
def pathLimit : Nat := 4096

/-- How far steps lead before they end, meet a link or are refused. -/
inductive Progress where
  | arrived (location : Location)
  /-- A link in the directory at `base`, with the steps still to take behind it. -/
  | link (base : Location) (target : RawText) (rest : List Step)
  | refused (fault : Fault)

/-- Takes steps from a directory up to the first link. `follow` tells whether a link in the last
step is one to be followed. -/
def Directory.advance (top : Directory) (follow : Bool) : Location → List Step → Progress
  | here, [] => .arrived here
  | here, .stay :: rest => top.advance follow here rest
  | here, .up :: rest => top.advance follow here.dropLast rest
  | here, .name n :: rest =>
    if nameLimit < n.bytes.length then .refused .nameTooLong
    else
      let there := here ++ [n]
      match top.get? there with
      | none => .refused .notFound
      | some (.directory _) => top.advance follow there rest
      | some (.file ..) => if rest = [] then .arrived there else .refused .notDirectory
      | some (.link target) =>
        if rest = [] && !follow then .arrived there else .link here target rest

/-- Takes steps from a directory through at most `links` links. -/
def Directory.resolve (top : Directory) (follow : Bool) :
    Nat → Location → List Step → Except Fault Location
  | links, here, steps =>
    match top.advance follow here steps with
    | .arrived location => .ok location
    | .refused fault => .error fault
    | .link base target rest =>
      match links with
      | 0 => .error .tooManyLinks
      | links + 1 =>
        let target : Path := ⟨target⟩
        top.resolve follow links (if target.isAbsolute then [] else base) (target.steps ++ rest)

end BuildRunner
