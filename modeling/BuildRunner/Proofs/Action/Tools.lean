import BuildRunner.Proofs.Action.Plan
import BuildRunner.Proofs.Registry.Guard
import BuildRunner.Proofs.Registry.Invariant
import BuildRunner.Proofs.World.Executable

/-!
# The tools that actions start

Tools are located once, when the context is made, and started later, by actions that run in the root
of the project. Four actions start programs, each a single tool and nothing else: all invocations
that such an action plans are of the tool's path in the context.

That path may be relative, as one found through an empty or a relative directory in `PATH` is. It is
followed from the working directory both times, so what is started is the file that was located, and
neither the root nor `PATH` comes into it again (`started_tools_are_located_files`).
-/

namespace BuildRunner

open Run

variable {programs : Programs} {cx : Context} {registry : Registry Action} {action : Action}
  {tool : Tool} {path root : Path} {settings : Settings} {s s' m : Session}

/-! ## Located tools -/

/-- The place that is set for a tool. -/
def Settings.Tools.place (tools : Settings.Tools) : Tool → Option Path
  | .zig => tools.zig
  | .asciidoctor => tools.asciidoctor

namespace Context

/-- The path of a tool in a context. -/
def tool? (cx : Context) : Tool → Option Path
  | .zig => some cx.zig
  | .asciidoctor => cx.asciidoctor

/-- Without Zig no context is made, and nothing is logged. -/
theorem run_resolve_of_missing (missing : locate s.world .zig settings.tools.zig = none)
    (root : Path) : (resolve root settings).run s = .error (.toolMissing .zig) s := by
  rw [resolve, bind_of_ok (run_world s)]
  simp only [missing]
  rfl

/-- With Zig a context is made, whether Asciidoctor is there or not. -/
theorem run_resolve_of_located {zig : Path}
    (located : locate s.world .zig settings.tools.zig = some zig) (root : Path) :
    ∃ s', (resolve root settings).run s =
      .ok ⟨root, zig, locate s.world .asciidoctor settings.tools.asciidoctor, settings⟩ s' := by
  rw [resolve, bind_of_ok (run_world s)]
  simp only [located]
  cases locate s.world .asciidoctor settings.tools.asciidoctor <;> exact ⟨_, rfl⟩

/-- A context is for the root it was made for, and has the tools that were located then. -/
theorem of_resolve (resolved : (resolve root settings).run s = .ok cx s') :
    cx.root = root ∧ ∀ tool, cx.tool? tool = locate s.world tool (settings.tools.place tool) := by
  cases zig : locate s.world .zig settings.tools.zig with
  | none => cases resolved.symm.trans (run_resolve_of_missing zig root)
  | some path =>
    obtain ⟨_, made⟩ := run_resolve_of_located zig root
    cases resolved.symm.trans made
    refine ⟨rfl, fun tool => ?_⟩
    cases tool with
    | zig => exact zig.symm
    | asciidoctor => rfl

/-- What is located is an executable file. -/
theorem leadsToProgram_of_locate {w : World} {set : Option Path}
    (located : locate w tool set = some path) :
    ∃ location content, w.LeadsToProgram path location content :=
  World.isExecutable_iff.mp (List.find?_some located)

end Context

/-! ## Actions that start tools -/

namespace Action

/-- The tool that an action starts. -/
def tool? : Action → Option Tool
  | tests _ => some .zig
  | build => some .zig
  | site => some .asciidoctor
  | manPages => some .asciidoctor
  | clean => none
  | docs => none
  | help => none
  | recipe _ => none

/-- The invocations that an action makes before it starts the first of them. -/
def plan (cx : Context) : Action → Run (List Invocation)
  | tests summary => pure [cx.testsInvocation summary]
  | build => pure [cx.buildInvocation]
  | site => cx.sitePlan
  | manPages => cx.manPagesPlan
  | _ => pure []

/-- What an action that starts a tool does is to plan its invocations and to run them. -/
theorem perform_eq_plan {depth : Nat} (deep : depth ≠ 0) (own : action.tool? = some tool) :
    action.perform programs cx registry depth =
      (do Invocation.runAll programs cx.root (← action.plan cx)) := by
  obtain ⟨depth, rfl⟩ := Nat.exists_eq_succ_of_ne_zero deep
  have single (invocation : Invocation) : Invocation.runAll programs cx.root [invocation] =
      invocation.run programs cx.root := by
    rw [Invocation.runAll]
    exact bind_pure _
  cases action with
  | tests summary => exact (single _).symm
  | build => exact (single _).symm
  | site => rfl
  | manPages => rfl
  | clean => cases own
  | docs => cases own
  | help => cases own
  | recipe content => cases own

/-- All invocations that are planned are of the tool. -/
theorem program_of_mem_plan {invocations : List Invocation} (own : action.tool? = some tool)
    (planned : (action.plan cx).run m = .ok invocations s) :
    ∀ invocation ∈ invocations, cx.tool? tool = some invocation.program := by
  cases action with
  | tests summary =>
    cases own
    cases planned
    exact List.forall_mem_singleton.mpr rfl
  | build =>
    cases own
    cases planned
    exact List.forall_mem_singleton.mpr rfl
  | site =>
    cases own
    cases located : cx.asciidoctor with
    | none =>
      obtain rfl := Context.sitePlan_of_missing located planned
      exact fun _ mem => absurd mem List.not_mem_nil
    | some path =>
      obtain rfl := Context.sitePlan_eq_ok located planned
      intro invocation mem
      split at mem
      · obtain ⟨source, _, rfl⟩ := List.mem_map.mp mem
        exact located
      · exact absurd mem List.not_mem_nil
  | manPages =>
    cases own
    cases located : cx.asciidoctor with
    | none =>
      rw [plan, Context.manPagesPlan_of_missing located] at planned
      cases planned
    | some path =>
      obtain ⟨entries, _, rfl, _⟩ := (Context.manPagesPlan_eq_ok located).mp planned
      intro invocation mem
      obtain ⟨name, _, page⟩ := List.mem_flatMap.mp mem
      rw [Context.pageInvocations, List.mem_cons, List.mem_singleton] at page
      obtain rfl | rfl := page <;> exact located
  | clean => cases own
  | docs => cases own
  | help => cases own
  | recipe content => cases own

/-- To plan is to look and to log. -/
theorem closed_plan {P : {β : Type} → Run β → Prop} (closed : Closed P) (cx : Context)
    (action : Action) : P (action.plan cx) := by
  cases action with
  | site => exact cx.closed_sitePlan closed
  | manPages => exact cx.closed_manPagesPlan closed
  | _ => exact closed.of_pure _

end Action

/-! ## What is started -/

/-- Trees are well formed whenever a program is started, if programs leave them so. -/
theorem wellFormed_of_launches (sound : programs.KeepWellFormed) (wf : m.world.files.WellFormed)
    {directory : Path} {invocations : List Invocation} {position : Nat} {w : World}
    {launch : Launch}
    (comes : Invocation.Launches programs directory invocations m position w launch) :
    w.files.WellFormed := by
  obtain ⟨done, _, _, mid, _, _, _, before, rfl, _⟩ := comes
  have guarantee := Guarantee.of_world fun w => w.files.WellFormed
  have start (invocation : Invocation) := Invocation.ensures_start guarantee
    fun s launch outcome (starts : invocation.Starts programs directory s.world launch outcome) =>
      sound launch s.world outcome starts.ran
  exact (Invocation.closed_runAll guarantee.closed start done).of_ok before wf

/-- **What is started is what was located.** Let a tool be located when a context is made, and an
action that starts this tool be performed under it at any later time. Each program that is started
then comes from an invocation of the located path. If that path still leads where it led from the
working directory of the lookup, and to the same file, then what is executed is this file, by an
absolute path. -/
theorem started_tools_are_located_files (sound : programs.KeepWellFormed)
    (resolved : (Context.resolve root settings).run s = .ok cx s') (registry : Registry Action)
    {depth : Nat} (deep : depth ≠ 0) (action : Action) (own : action.tool? = some tool)
    (m : Session) (wf : m.world.files.WellFormed) :
    ∃ started, ((action.perform programs cx registry depth).final m).launches =
        m.launches ++ started ∧
      ∀ position launch, started[position]? = some launch →
        ∃ invocations before w path location content,
          (action.plan cx).run m = .ok invocations before ∧
          Invocation.Launches programs root invocations before position w launch ∧
          Context.locate s.world tool (settings.tools.place tool) = some path ∧
          s.world.LeadsToProgram path location content ∧
          (w.LeadsToProgram path location content →
            launch.program.isAbsolute = true ∧
              w.LeadsToProgram launch.program location content) := by
  obtain ⟨rfl, located⟩ := Context.of_resolve resolved
  have unlaunched : Ensures (fun s s' => s'.launches = s.launches) (action.plan cx) :=
    Action.closed_plan launches_guarantee.closed cx action
  have unspoilt : Ensures (fun s s' => s.world.files.WellFormed → s'.world.files.WellFormed)
      (action.plan cx) :=
    Action.closed_plan (Guarantee.of_world fun w => w.files.WellFormed).closed cx action
  rw [Action.perform_eq_plan deep own, final_bind]
  cases planned : (action.plan cx).run m with
  | error failure before =>
    have none := unlaunched m
    rw [final_of_error planned] at none
    exact ⟨[], by rw [List.append_nil]; exact none, nofun⟩
  | ok invocations before =>
    obtain ⟨started, launches, comes⟩ :=
      Invocation.runAll_launches programs cx.root invocations before
    rw [unlaunched.of_ok planned] at launches
    refine ⟨started, launches, fun position launch found => ?_⟩
    obtain ⟨w, here⟩ := comes position launch found
    have sane := wellFormed_of_launches sound (unspoilt.of_ok planned wf) here
    obtain ⟨done, invocation, rest, mid, outcome, rfl, length, ran, world, starts⟩ := here
    have path := Action.program_of_mem_plan own planned invocation (by simp)
    rw [located] at path
    obtain ⟨location, content, leads⟩ := Context.leadsToProgram_of_locate path
    obtain ⟨_, _, there⟩ := World.of_checkLaunch starts.checked
    exact ⟨_, before, w, invocation.program, location, content, rfl,
      ⟨done, invocation, rest, mid, outcome, rfl, length, ran, world, starts⟩, path, leads,
      fun still => World.leadsToProgram_of_executable sane still starts.program there⟩

/-- A session in a directory with a file `zig`, which the empty directory in `PATH` leads to. The
root of the project is another directory, with a file of this name, too. -/
def besideZig : Session :=
  let other : Node := .file "other".toUTF8 true
  ⟨⟨.ofList [("w", .directory (.ofList [("zig", .file .empty true)])),
    ("p", .directory (.ofList [("zig", other)]))], ["w"], ⟨[("PATH", ":/p")]⟩⟩, none, []⟩

/-- The file that is started for the relative path is the one in the working directory. -/
theorem started_tools_are_located_files_relative :
    let idle : Programs := fun _ w => .ok ⟨.code 0, w.files, "", ""⟩
    idle.KeepWellFormed ∧ besideZig.world.files.WellFormed ∧
    ∃ cx m launch, (Context.resolve ⟨"/p"⟩ Settings.default).run besideZig = .ok cx m ∧
      cx.zig = ⟨"zig"⟩ ∧ launch.program = ⟨"/w/zig"⟩ ∧
      ((Action.perform idle cx ⟨buildCommands⟩ nestingLimit (.tests false)).final m).launches =
        m.launches ++ [launch] ∧
      m.world.LeadsToProgram launch.program ["w", "zig"] .empty := by
  intro idle
  have sound : idle.KeepWellFormed := by
    rintro launch w outcome ⟨⟩ wf
    exact wf
  have wf : besideZig.world.files.WellFormed := by decide
  let cx : Context := ⟨⟨"/p"⟩, ⟨"zig"⟩, none, Settings.default⟩
  have zig : Context.locate besideZig.world .zig none = some ⟨"zig"⟩ := by decide +kernel
  have asciidoctor : Context.locate besideZig.world .asciidoctor none = none := by decide +kernel
  let m := (besideZig.record (.logged ⟨.debug, .settings, "zig: zig"⟩)).record
    (.logged ⟨.debug, .settings, "asciidoctor: not found"⟩)
  have resolved : (Context.resolve ⟨"/p"⟩ Settings.default).run besideZig = .ok cx m := by
    rw [Context.resolve, bind_of_ok (run_world _)]
    simp only [Settings.default, Settings.Tools.default, zig, asciidoctor]
    rfl
  let launch : Launch := ⟨⟨"/w/zig"⟩, ["build", "tests"], ⟨"/p"⟩⟩
  have ended : ((Action.perform idle cx ⟨buildCommands⟩ nestingLimit (.tests false)).final
      m).launches = m.launches ++ [launch] := by
    rw [Action.perform_eq_of_step nestingLimit_ne_zero rfl]
    decide +kernel
  obtain ⟨started, launches, comes⟩ := started_tools_are_located_files sound resolved
    ⟨buildCommands⟩ nestingLimit_ne_zero (.tests false) rfl m wf
  obtain rfl : started = [launch] := List.append_cancel_left (launches.symm.trans ended)
  obtain ⟨invocations, before, w, path, location, content, planned, here, located, leads, same⟩ :=
    comes 0 launch rfl
  -- the first program is started in the world of the lookup
  obtain ⟨done, _, _, _, _, _, length, ran, rfl, _⟩ := here
  obtain rfl := List.eq_nil_of_length_eq_zero length
  cases planned
  cases ran
  obtain rfl : path = ⟨"zig"⟩ := Option.some.inj (located.symm.trans zig)
  have way : (besideZig.world.locate ⟨"zig"⟩ true).toOption =
      some (["w", "zig"] : Location) := by decide +kernel
  rw [leads.located] at way
  obtain rfl := Option.some.inj way
  have file : besideZig.world.files.get? ["w", "zig"] = some (.file .empty true) := by
    decide +kernel
  rw [leads.found] at file
  cases file
  exact ⟨sound, wf, cx, m, launch, resolved, rfl, rfl, ended, (same leads).2⟩

end BuildRunner
