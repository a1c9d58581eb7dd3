import BuildRunner.Proofs.Action.Tools
import BuildRunner.Proofs.World.Lookup

/-!
# Making contexts

Zig alone decides whether a context is made; Asciidoctor is in it or not. Each tool is what the
lookup of programs finds for it. A tool that is set by a path is never searched for: if the path
leads to no executable file, there is no such tool, whatever `PATH` holds
(`resolve_locates_tools`).
-/

namespace BuildRunner

open Run

/-- What a tool is looked up by: the place that is set for it, or its name. -/
def Settings.Tools.program (tools : Settings.Tools) (tool : Tool) : Path :=
  (tools.place tool).getD ⟨tool.programName⟩

/-- The place of each tool is set, by a path of several components. -/
def Settings.Tools.AllPlaced (tools : Settings.Tools) : Prop :=
  ∀ tool, ∃ program, tools.place tool = some program ∧ 1 < program.components.length

namespace Context

variable {w : World} {root program path : Path} {settings : Settings} {tools : Settings.Tools}
  {tool : Tool} {s s' : Session} {cx : Context} {failure : Failure}

/-! ## What is located -/

theorem locate_eq_some :
    locate w tool (tools.place tool) = some path ↔ w.Finds (tools.program tool) path :=
  World.findProgram?_eq_some

/-- A tool that is not set is searched for by its name. -/
theorem finds_of_unset (unset : tools.place tool = none) :
    w.Finds (tools.program tool) path ↔ w.FirstOnSearchPath ⟨tool.programName⟩ path := by
  have bare : (Path.mk tool.programName).components.length ≤ 1 := by
    cases tool <;> decide
  rw [Settings.Tools.program, unset, Option.getD_none, ← World.findProgram?_eq_some,
    World.findProgram?_of_bare bare]

/-- A tool that is set by a path of several components is there or nowhere. -/
theorem finds_of_set (set : tools.place tool = some program)
    (several : 1 < program.components.length) :
    w.Finds (tools.program tool) path ↔ w.Spells program path ∧ w.HasProgram path := by
  rw [Settings.Tools.program, set, Option.getD_some, ← World.findProgram?_eq_some,
    World.findProgram?_of_several several]

/-- If the places of both tools are set, the environment does not matter to what is located. -/
theorem locate_environment (placed : tools.AllPlaced) (env : Environment) (tool : Tool) :
    locate { w with environment := env } tool (tools.place tool) =
      locate w tool (tools.place tool) := by
  obtain ⟨program, set, several⟩ := placed tool
  rw [set]
  exact World.findProgram?_environment several env

/-! ## Contexts -/

/-- A context is made exactly from what is given and what is located. -/
theorem resolve_eq_ok : (∃ s', (resolve root settings).run s = .ok cx s') ↔
    cx.root = root ∧ cx.settings = settings ∧
      ∀ tool, cx.tool? tool = locate s.world tool (settings.tools.place tool) := by
  constructor
  · rintro ⟨s', resolved⟩
    obtain ⟨same, located⟩ := of_resolve resolved
    obtain ⟨_, made⟩ := run_resolve_of_located (located .zig).symm root
    obtain ⟨_, zig, asciidoctor, own⟩ := cx
    cases resolved.symm.trans made
    exact ⟨same, rfl, located⟩
  · rintro ⟨rfl, rfl, located⟩
    obtain ⟨s', made⟩ := run_resolve_of_located (located .zig).symm cx.root
    have asciidoctor : cx.asciidoctor =
        locate s.world .asciidoctor cx.settings.tools.asciidoctor := located .asciidoctor
    rw [← asciidoctor] at made
    exact ⟨s', made⟩

/-- Zig alone decides whether there is a context. -/
theorem exists_resolve_eq_ok : (∃ cx s', (resolve root settings).run s = .ok cx s') ↔
    ∃ path, s.world.Finds (settings.tools.program .zig) path := by
  constructor
  · rintro ⟨cx, made⟩
    exact ⟨cx.zig, locate_eq_some.mp ((resolve_eq_ok.mp made).2.2 .zig).symm⟩
  · rintro ⟨zig, finds⟩
    obtain ⟨s', made⟩ := run_resolve_of_located (locate_eq_some.mpr finds) root
    exact ⟨_, s', made⟩

/-- There is no other failure than that Zig is missing. -/
theorem of_resolve_eq_error (failed : (resolve root settings).run s = .error failure s') :
    failure = .toolMissing .zig ∧ s' = s := by
  cases zig : locate s.world .zig settings.tools.zig with
  | none =>
    cases failed.symm.trans (run_resolve_of_missing zig root)
    exact ⟨rfl, rfl⟩
  | some path =>
    obtain ⟨_, made⟩ := run_resolve_of_located zig root
    cases failed.symm.trans made

/-- **What a context is made from.** A context is made if and only if Zig is found; otherwise this
is the failure, and nothing happened. The context keeps the root and the settings, and has each tool
by the path that is found for it. Such a path leads to an executable file, perhaps through links.
For a tool that is not set it is the one in the first directory of `PATH` that holds this file by
its name. For a tool that is set by a path of several components it stands for that path and leads
where that one does, a slash at the end left out. So if both tools are set like this, the
environment makes no difference. -/
theorem resolve_locates_tools (root : Path) (settings : Settings) (s : Session) :
    let w := s.world
    let tools := settings.tools
    let resolved (s : Session) (cx : Context) := ∃ s', (resolve root settings).run s = .ok cx s'
    ((∃ cx, resolved s cx) ↔ ∃ path, w.Finds (tools.program .zig) path) ∧
    (∀ failure s', (resolve root settings).run s = .error failure s' →
      failure = .toolMissing .zig ∧ s' = s) ∧
    (∀ cx, resolved s cx → cx.root = root ∧ cx.settings = settings ∧
      ∀ tool path, cx.tool? tool = some path ↔ w.Finds (tools.program tool) path) ∧
    (∀ tool path, w.Finds (tools.program tool) path →
      ∃ location content, w.LeadsToProgram path location content) ∧
    (∀ tool, tools.place tool = none → ∀ path, w.Finds (tools.program tool) path ↔
      w.FirstOnSearchPath ⟨tool.programName⟩ path) ∧
    (∀ tool program, tools.place tool = some program → 1 < program.components.length → ∀ path,
      (w.Finds (tools.program tool) path ↔ w.Spells program path ∧ w.HasProgram path) ∧
      (w.Finds (tools.program tool) path → w.files.WellFormed → ∀ location,
        (w.locate path true = .ok location →
          w.locateSteps program.isAbsolute true (Step.plain program.steps) = .ok location) ∧
        (w.locate program true = .ok location → w.locate path true = .ok location))) ∧
    (tools.AllPlaced → ∀ env cx,
      resolved { s with world := { w with environment := env } } cx ↔ resolved s cx) := by
  intro w tools resolved
  refine ⟨exists_resolve_eq_ok, fun failure s' failed => of_resolve_eq_error failed,
    fun cx made => ?_, fun tool path finds => finds.file,
    fun tool unset path => finds_of_unset unset, fun tool program set several path =>
      ⟨finds_of_set set several, fun finds wf location => ?_⟩, fun placed env cx => ?_⟩
  · obtain ⟨sameRoot, sameSettings, located⟩ := resolve_eq_ok.mp made
    exact ⟨sameRoot, sameSettings, fun tool path => by rw [located, locate_eq_some]⟩
  · obtain ⟨spelled, other, content, leads⟩ := (finds_of_set set several).mp finds
    have nonempty : program.raw ≠ "" := fun empty => by
      obtain rfl : program = ⟨""⟩ := congrArg Path.mk empty
      exact absurd several (by decide)
    refine ⟨World.locateSteps_of_spells wf nonempty spelled, fun located => ?_⟩
    rw [← World.eq_of_locate_spelled wf spelled located leads.located]
    exact leads.located
  · refine resolve_eq_ok.trans (Iff.trans ?_ resolve_eq_ok.symm)
    refine and_congr_right fun _ => and_congr_right fun _ => forall_congr' fun tool => ?_
    exact iff_of_eq (congrArg (cx.tool? tool = ·) (locate_environment placed env tool))

/-- A session with a file `zig`, which links in the fifth directory of `PATH` and below the working
directory lead to. Before that one, `PATH` has a file `zig` that may not be executed, a directory
and a dead link of this name, and the working directory, which has none. -/
def manyZigs : Session :=
  let files : Directory := .ofList [
    ("dead", .directory (.ofList [("zig", .link "gone")])),
    ("directory", .directory (.ofList [("zig", .directory .empty)])),
    ("home", .directory (.ofList [("bin", .directory (.ofList [("zig", .link "/opt/zig")]))])),
    ("late", .directory (.ofList [("asciidoctor", .file .empty true), ("zig", .file .empty true)])),
    ("opt", .directory (.ofList [("zig", .file "zig".toUTF8 true)])),
    ("text", .directory (.ofList [("zig", .file .empty false)])),
    ("w", .directory (.ofList [("tools", .directory (.ofList [("zig", .link "../../opt/zig")]))]))]
  ⟨⟨files, ["w"], ⟨[("HOME", "/home"), ("PATH", "/text:/directory:/dead::~/bin:/late")]⟩⟩, none, []⟩

/-- The first Zig that may be executed is found where none is set. Where a path is set for each
tool, Zig is found by its own path, and no Asciidoctor is found, also where `PATH` has one. -/
theorem resolve_locates_tools_manyZigs :
    let w := manyZigs.world
    let other : Environment := ⟨[("PATH", "/late")]⟩
    let placed : Settings := ⟨.default, ⟨some ⟨"tools/zig"⟩, some ⟨"/opt/asciidoctor"⟩⟩⟩
    let cx : Context := ⟨⟨"."⟩, ⟨"/w/tools/zig"⟩, none, placed⟩
    (∃ found s', (resolve ⟨"."⟩ Settings.default).run manyZigs = .ok found s' ∧
      found.zig = ⟨"/home/bin/zig"⟩ ∧ w.FirstOnSearchPath ⟨"zig"⟩ found.zig) ∧
    placed.tools.AllPlaced ∧ w.files.WellFormed ∧
    w.locate ⟨"tools/zig"⟩ true = .ok ["opt", "zig"] ∧ w.locate cx.zig true = .ok ["opt", "zig"] ∧
    ∃ s', (resolve ⟨"."⟩ placed).run { manyZigs with world := { w with environment := other } } =
      .ok cx s' := by
  intro w other placed cx
  have wf : w.files.WellFormed := by decide +kernel
  have searched : locate w .zig Settings.default.tools.zig = some ⟨"/home/bin/zig"⟩ := by
    decide +kernel
  have own : locate w .zig placed.tools.zig = some ⟨"/w/tools/zig"⟩ := by decide +kernel
  have missing : locate w .asciidoctor placed.tools.asciidoctor = none := by decide +kernel
  have there : w.locate ⟨"tools/zig"⟩ true = .ok ["opt", "zig"] := rfl
  have both : placed.tools.AllPlaced := by
    intro tool
    cases tool with
    | zig => exact ⟨_, rfl, by decide⟩
    | asciidoctor => exact ⟨_, rfl, by decide⟩
  obtain ⟨_, _, _, _, unset, _⟩ := resolve_locates_tools ⟨"."⟩ .default manyZigs
  obtain ⟨_, _, _, _, _, set, free⟩ := resolve_locates_tools ⟨"."⟩ placed manyZigs
  obtain ⟨s', made⟩ := run_resolve_of_located searched ⟨"."⟩
  obtain ⟨_, ownMade⟩ := run_resolve_of_located own ⟨"."⟩
  rw [missing] at ownMade
  refine ⟨⟨_, s', made, rfl, ?_⟩, both, wf, there, ?_, ?_⟩
  · exact (unset .zig rfl _).mp (locate_eq_some.mp searched)
  · have finds : w.Finds (placed.tools.program .zig) cx.zig := locate_eq_some.mp own
    exact ((set .zig ⟨"tools/zig"⟩ rfl (by decide) cx.zig).2 finds wf _).2 there
  · exact (free both other cx).mpr ⟨_, ownMade⟩

end Context

end BuildRunner
