import BuildRunner.CommandLine.Program
import BuildRunner.Proofs.Registry.Frame

/-!
# From arguments to directives

The program `x` starts up before it looks at any directive: it loads the settings and locates the
tools. Then it acts on the directives, under the context it made. Starting up only reads the world
and logs, so where it fails nothing has happened yet.

What `x` acts on are its arguments, in their order and whatever they look like. One argument is not
passed on: a separator in front of all others (`acts_on_arguments`). So a project cannot have a
directive of this name as its first one.
-/

namespace BuildRunner.Program

open Run

variable {programs : Programs} {root : Path} {cx : Context} {settings : Settings}
  {refusal : Settings.Refusal} {s m : Session} {w : World} {arguments directives : List String}

/-- What `x` does before it looks at its directives. -/
def startUp (root : Path) : Run Context := do
  let settings ← match Settings.load (← Run.world) root with
    | .ok settings => pure settings
    | .error refusal => throw (.settings refusal)
  Context.resolve root settings

/-- What `x` does with directives: it dispatches them, or it writes the help listing when there are
none. -/
def act (programs : Programs) (cx : Context) (directives : List String) : Run Unit :=
  let registry : Registry Action := ⟨buildCommands⟩
  if directives.isEmpty then Run.write registry.help
  else registry.run programs cx directives

/-- The report of `x` on how a run ended. -/
def reportOf (ended : EStateM.Result Failure Session Unit) : Report :=
  match ended with
  | .ok _ s => s.report 0
  | .error failure s =>
    match failure.level? with
    | none => s.report 0
    | some level => (s.record (.logged ⟨level, .command, failure.message⟩)).report 1

/-- What `x` does is to start up and then to act. -/
theorem runDirectives_eq (programs : Programs) (root : Path) (directives : List String) :
    runDirectives programs root directives =
      startUp root >>= fun cx => act programs cx directives := by
  rw [runDirectives, startUp, Registry.buildRegistry_eq, bind_assoc]
  refine bind_congr fun w => ?_
  cases Settings.load w root <;> rfl

theorem run_x (programs : Programs) (root : Path) (arguments : List String) (w : World) :
    Program.run programs root .x arguments w =
      reportOf ((startUp root >>= fun cx => act programs cx (directivesOf arguments)).run
        (.start w)) := by
  rw [← runDirectives_eq]
  rfl

/-! ## Starting up -/

theorem startUp_of_refused (refused : Settings.load s.world root = .error refusal) :
    (startUp root).run s = .error (.settings refusal) s := by
  rw [startUp, bind_of_ok (run_world s), refused]
  rfl

theorem startUp_of_loaded (loaded : Settings.load s.world root = .ok settings) :
    (startUp root).run s = (Context.resolve root settings).run s := by
  rw [startUp, bind_of_ok (run_world s), loaded]
  rfl

theorem startUp_of_missing (loaded : Settings.load s.world root = .ok settings)
    (missing : Context.locate s.world .zig settings.tools.zig = none) :
    (startUp root).run s = .error (.toolMissing .zig) s := by
  rw [startUp_of_loaded loaded, Context.resolve, bind_of_ok (run_world s), missing]
  rfl

/-- With settings and with Zig there is a context, and nothing has happened but that the tools were
logged. -/
theorem startUp_of_located {zig : Path} (loaded : Settings.load s.world root = .ok settings)
    (located : Context.locate s.world .zig settings.tools.zig = some zig) :
    ∃ cx m, (startUp root).run s = .ok cx m ∧ s.LogsOnly m := by
  rw [startUp_of_loaded loaded, Context.resolve, bind_of_ok (run_world s), located]
  dsimp only
  rw [bind_of_ok (run_log _ _ _ s)]
  cases Context.locate s.world .asciidoctor settings.tools.asciidoctor <;>
    exact ⟨_, _, rfl, .log _ (.log _ .refl)⟩

/-- Log records are no output. -/
theorem output_of_logsOnly (logs : s.LogsOnly m) :
    m.trace.flatMap Event.output = s.trace.flatMap Event.output := by
  induction logs with
  | refl => rfl
  | log record _ ih => simp [Session.record, Event.output, ih]

/-! ## Acting on directives -/

/-- Without directives the help listing is all that is written. -/
theorem act_nil (programs : Programs) (cx : Context) (logs : (Session.start w).LogsOnly m) :
    ∃ s, (act programs cx []).run m = .ok () s ∧
      (s.report 0).output = (Registry.mk buildCommands).help := by
  refine ⟨_, run_write_unlimited _ logs.room, ?_⟩
  simp [Session.report, Session.record, output_of_logsOnly logs, Session.start, Event.output]

theorem directivesOf_of_ne (front : arguments.head? ≠ some "--") :
    directivesOf arguments = arguments := by
  cases arguments with
  | nil => rfl
  | cons first rest =>
    rw [directivesOf]
    intro _ same
    cases same
    exact front rfl

/-- **The directives of `x` are its arguments, but for a separator in front.** Once `x` is started
up, it acts on exactly the arguments that it is given, unless the first of them is a separator. Then
it acts on exactly those behind this one, even if they are none or begin with a separator again. -/
theorem acts_on_arguments (programs : Programs)
    (started : (startUp root).run (.start w) = .ok cx m) :
    (∀ arguments, arguments.head? ≠ some "--" →
      Program.run programs root .x arguments w = reportOf ((act programs cx arguments).run m)) ∧
    ∀ directives, Program.run programs root .x ("--" :: directives) w =
      reportOf ((act programs cx directives).run m) := by
  constructor
  · intro arguments front
    rw [run_x, bind_of_ok started, directivesOf_of_ne front]
  · intro directives
    rw [run_x, bind_of_ok started]
    rfl

/-- A world with Zig in the one directory of `PATH`, and with nothing else. -/
def withZig : World :=
  ⟨.ofList [("bin", .directory (.ofList [("zig", .file .empty true)]))], [], ⟨[("PATH", "/bin")]⟩⟩

/-- The context in this world. -/
def withZigContext : Context :=
  ⟨⟨"/"⟩, ⟨"/bin/zig"⟩, none, .default⟩

/-- The session once `x` is started up in this world. -/
def withZigStarted : Session :=
  ((Session.start withZig).record (.logged ⟨.debug, .settings, "zig: /bin/zig"⟩)).record
    (.logged ⟨.debug, .settings, "asciidoctor: not found"⟩)

/-- What is loaded, from an answer that can be compared. -/
theorem load_of_toOption (loaded : (Settings.load w root).toOption = some settings) :
    Settings.load w root = .ok settings :=
  World.eq_ok_of_toOption loaded

theorem startUp_withZig :
    (startUp ⟨"/"⟩).run (.start withZig) = .ok withZigContext withZigStarted := by
  have loaded : Settings.load withZig ⟨"/"⟩ = .ok .default := load_of_toOption (by decide +kernel)
  have zig : Context.locate withZig .zig none = some ⟨"/bin/zig"⟩ := by decide +kernel
  have asciidoctor : Context.locate withZig .asciidoctor none = none := by decide +kernel
  rw [startUp_of_loaded loaded, Context.resolve, bind_of_ok (run_world _)]
  simp only [Session.start, Settings.default, Settings.Tools.default, zig, asciidoctor]
  rfl

/-- What looks like an option is a directive, and so is a separator behind it. -/
theorem acts_on_arguments_hyphens :
    let idle : Programs := fun _ w => .ok ⟨.code 0, w.files, "", ""⟩
    (startUp ⟨"/"⟩).run (.start withZig) = .ok withZigContext withZigStarted ∧
      (Program.run idle ⟨"/"⟩ .x ["--help", "--"] withZig).output =
        "unknown build directive: --help\nunknown build directive: --\n" ∧
      (Program.run idle ⟨"/"⟩ .x ["--", "--help"] withZig).output =
        "unknown build directive: --help\n" := by
  intro idle
  obtain ⟨whole, behind⟩ := acts_on_arguments idle startUp_withZig
  refine ⟨startUp_withZig, ?_, ?_⟩
  · rw [whole ["--help", "--"] (by decide)]
    decide +kernel
  · rw [behind]
    decide +kernel

/-- A separator that is the only argument is not dispatched: instead of the notice about it the help
listing is written. -/
theorem separator_is_not_dispatched :
    let idle : Programs := fun _ w => .ok ⟨.code 0, w.files, "", ""⟩
    (startUp ⟨"/"⟩).run (.start withZig) = .ok withZigContext withZigStarted ∧
      (reportOf ((act idle withZigContext ["--"]).run withZigStarted)).output =
        "unknown build directive: --\n" ∧
      (Program.run idle ⟨"/"⟩ .x ["--"] withZig).output = (Registry.mk buildCommands).help ∧
      Program.run idle ⟨"/"⟩ .x ["--"] withZig ≠
        reportOf ((act idle withZigContext ["--"]).run withZigStarted) := by
  intro idle
  have asked : (reportOf ((act idle withZigContext ["--"]).run withZigStarted)).output =
      "unknown build directive: --\n" := by
    decide +kernel
  have given : (Program.run idle ⟨"/"⟩ .x ["--"] withZig).output =
      (Registry.mk buildCommands).help := by
    obtain ⟨s, ran, listing⟩ := act_nil idle withZigContext (.log _ (.log _ .refl))
    rw [run_x, bind_of_ok startUp_withZig]
    exact (congrArg _ (congrArg reportOf ran)).trans listing
  refine ⟨startUp_withZig, asked, given, fun same => ?_⟩
  -- the listing begins with an empty line
  rw [same, asked, Registry.help] at given
  exact absurd (congrArg (fun text => text.toList.head?) given) (by simp [Registry.helpHeading])

end BuildRunner.Program
