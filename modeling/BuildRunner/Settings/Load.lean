import BuildRunner.Settings.Decode
import BuildRunner.Settings.Variable
import BuildRunner.Toml.Document
import BuildRunner.World

/-!
# Loading settings

Settings come in layers: the defaults, the settings file of a project, and the variables of the
environment, each with precedence over those before it. The file of a project whose root is a
relative path is looked for from the working directory on upward.
-/

namespace BuildRunner.Settings

/-- The name of the settings file in the root of a project. -/
def fileName : String := "x.toml"

/-- The settings file of a project. -/
def file? (w : World) (root : Path) : Option Path :=
  let wanted := root.join ⟨fileName⟩
  if wanted.isAbsolute then
    if w.isFile wanted then some wanted else none
  else
    match w.workingPath with
    | .ok here => (here.ancestors.map fun directory => directory.join wanted).find? w.isFile
    | .error _ => none

/-- The path by which a settings file is reported: as seen from the working directory where that is
shorter. -/
def reportedPath (w : World) (file : Path) : Path :=
  match w.workingPath with
  | .ok here =>
    let seen := file.seenFrom here
    if seen.components.length < file.components.length then seen else file
  | .error _ => file

/-- The settings that the file of a project gives. -/
def fromFile (w : World) (root : Path) : Except Refusal Table :=
  match file? w root with
  | none => .ok .empty
  | some file =>
    match w.readText file with
    | .error _ => .error .malformed
    | .ok text =>
      match Toml.read? text with
      | none => .error .malformed
      | some entries => .ok (entries.table (.file (reportedPath w file)))

/-- The settings of a project. -/
def load (w : World) (root : Path) : Except Refusal Settings := do
  let file ← fromFile w root
  decode (file.merge (fromEnvironment w.environment))

end BuildRunner.Settings
