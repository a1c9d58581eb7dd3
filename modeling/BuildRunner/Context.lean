import BuildRunner.Lookup
import BuildRunner.Session
import BuildRunner.Settings.Load

/-!
# Contexts

What an action has to know: the root of the project, the tools, and the settings. Zig has to be
there for a context to be made; Asciidoctor only matters to the actions that need it.
-/

namespace BuildRunner

/-- A project with its tools and settings. -/
structure Context where
  root : Path
  zig : Path
  asciidoctor : Option Path
  settings : Settings
  deriving DecidableEq, Repr, Inhabited

namespace Context

/-- A path of the project. -/
def path (cx : Context) (relative : String) : Path :=
  cx.root.join ⟨relative⟩

/-- The settings of the documentation. -/
def docs (cx : Context) : Settings.Docs :=
  cx.settings.docs

/-- Asciidoctor, without which the run fails. -/
def needAsciidoctor (cx : Context) : Run Path :=
  match cx.asciidoctor with
  | some path => pure path
  | none => throw (.toolMissing .asciidoctor)

/-- The file of a tool: the one that is set, or else the one that its name leads to. -/
def locate (w : World) (tool : Tool) (set : Option Path) : Option Path :=
  w.findProgram? (set.getD ⟨tool.programName⟩)

/-- The context of a project, its tools located. -/
def resolve (root : Path) (settings : Settings) : Run Context := do
  let w ← Run.world
  match locate w .zig settings.tools.zig with
  | none => throw (.toolMissing .zig)
  | some zig =>
    let asciidoctor := locate w .asciidoctor settings.tools.asciidoctor
    Run.log .debug .settings ("zig: " ++ zig.text)
    match asciidoctor with
    | some path => Run.log .debug .settings ("asciidoctor: " ++ path.text)
    | none => Run.log .debug .settings "asciidoctor: not found"
    return ⟨root, zig, asciidoctor, settings⟩

end Context

end BuildRunner
