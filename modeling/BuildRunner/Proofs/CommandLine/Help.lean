import BuildRunner.Proofs.CommandLine.Outcome
import BuildRunner.Proofs.Registry.Limit

/-!
# Help ends everything

To show help is to write the listing and then to end the run by a failure that is none. So no
directive behind `help` is ever looked at, and a dispatch with `help` among its directives never
succeeds: it ends before, or there.

For `x` this failure is a success, and then it makes no difference whether help was asked for or
whether there were no directives at all: the listing is all that is written in both cases.
-/

namespace BuildRunner

open Run

variable {programs : Programs} {cx : Context} {registry : Registry Action} {s m : Session}
  {pre post : List String}

/-! ## Writing the listing -/

/-- The output stream still takes a text. -/
def Session.Takes (s : Session) (text : String) : Prop :=
  ∀ room, s.room = some room → (Text.utf8 text).length ≤ room

/-- A text that the stream takes is written whole. -/
theorem Run.run_write_of_takes {text : String} (takes : s.Takes text) :
    ∃ room, (write text).run s =
      .ok () { s.record (.wrote (Text.utf8 text)) with room := room } := by
  cases full : s.room with
  | none => exact ⟨s.room, run_write_unlimited text full⟩
  | some room =>
    have fits := takes room full
    refine ⟨some (room - (Text.utf8 text).length), ?_⟩
    simp [write, writeBytes, full, Nat.not_lt.mpr fits, List.take_of_length_le fits,
      Session.record]

namespace Registry

/-! ## The job that shows help -/

/-- What the directive `help` comes to. -/
def helpJob : Job Action :=
  .own "help" .help

/-- The session in which help is announced. -/
def announced (s : Session) : Session :=
  s.record (.logged ⟨.debug, .registry, "==> help (help)"⟩)

theorem run_helpJob : (helpJob.run (Action.perform programs cx registry nestingLimit)).run s =
    registry.performHelp.run (announced s) := by
  obtain ⟨depth, deep⟩ := Nat.exists_eq_succ_of_ne_zero nestingLimit_ne_zero
  rw [deep]
  rfl

theorem performHelp_ne_ok (registry : Registry Action) (s s' : Session) :
    registry.performHelp.run s ≠ .ok () s' := by
  intro done
  obtain ⟨_, _, _, ended⟩ := bind_eq_ok.mp done
  cases ended

theorem helpJob_ne_ok (s : Session) (answer : Unit) (s' : Session) :
    (helpJob.run (Action.perform programs cx registry nestingLimit)).run s ≠ .ok answer s' := by
  rw [run_helpJob]
  exact performHelp_ne_ok registry _ _

/-- Where the stream takes the listing, help writes it and ends the run. -/
theorem helpJob_eq_exit (takes : s.Takes registry.help) :
    ∃ room, (helpJob.run (Action.perform programs cx registry nestingLimit)).run s =
      .error .exit
        { (announced s).record (.wrote (Text.utf8 registry.help)) with room := room } := by
  obtain ⟨room, written⟩ := run_write_of_takes (s := announced s) takes
  refine ⟨room, ?_⟩
  rw [run_helpJob, performHelp, bind_of_ok written]
  rfl

/-! ## Directives before and after -/

theorem jobs_help : jobs ⟨buildCommands⟩ ["help"] = [helpJob] :=
  rfl

/-- The directives before `help` are dispatched, then help is shown, and what would follow is not
reached. -/
theorem run_help (programs : Programs) (cx : Context) (pre post : List String) :
    run ⟨buildCommands⟩ programs cx (pre ++ ["help"] ++ post) =
      run ⟨buildCommands⟩ programs cx pre >>= fun _ =>
        helpJob.run (Action.perform programs cx ⟨buildCommands⟩ nestingLimit) := by
  rw [run, dispatch_eq_runJobs, jobs_append, jobs_append, jobs_help, List.append_assoc,
    runJobs_append, List.singleton_append, runJobs, run, dispatch_eq_runJobs]
  refine bind_congr fun _ => ?_
  exact (bind_eq_of_ne_ok helpJob_ne_ok _ pure).trans (bind_pure _)

/-- If all directives before succeed, and the stream takes the listing, this is what is left. -/
theorem run_help_of_ok (before : (run ⟨buildCommands⟩ programs cx pre).run s = .ok () m)
    (takes : m.Takes (Registry.mk buildCommands).help) (post : List String) :
    ∃ room, (run ⟨buildCommands⟩ programs cx (pre ++ ["help"] ++ post)).run s = .error .exit
      { (announced m).record (.wrote (Text.utf8 (Registry.mk buildCommands).help)) with
        room := room } := by
  rw [run_help, bind_of_ok before]
  exact helpJob_eq_exit takes

end Registry

namespace Program

/-- Asked for help, `x` reports what it reports without directives. -/
theorem report_help (programs : Programs) (root : Path) (post : List String) (w : World) :
    let bare := Program.run programs root .x [] w
    let asked := Program.run programs root .x ("help" :: post) w
    asked.status = bare.status ∧ asked.output = bare.output ∧ asked.world = bare.world := by
  intro bare asked
  have front : directivesOf ("help" :: post) = "help" :: post := directivesOf_of_ne (by simp)
  have bareRun : bare = reportOf ((startUp root >>= fun cx => act programs cx []).run (.start w)) :=
    run_x programs root [] w
  have askedRun : asked =
      reportOf ((startUp root >>= fun cx => act programs cx ("help" :: post)).run (.start w)) := by
    rw [← front]
    exact run_x programs root ("help" :: post) w
  by_cases refused : CannotStart w root
  · obtain ⟨failure, _, _, failed⟩ := startUp_of_cannotStart refused
    rw [bareRun, askedRun, bind_of_error failed, bind_of_error failed]
    exact ⟨rfl, rfl, rfl⟩
  · obtain ⟨cx, m, started, logs⟩ := startUp_of_not_cannotStart refused
    have room : m.room = none := logs.room
    have takes : m.Takes (Registry.mk buildCommands).help := by
      intro limit full
      cases room.symm.trans full
    have nothing : ((Registry.mk buildCommands).run programs cx []).run m = .ok () m := rfl
    obtain ⟨_, exited⟩ := Registry.run_help_of_ok nothing takes post
    have listed : (act programs cx []).run m =
        .ok () (m.record (.wrote (Text.utf8 (Registry.mk buildCommands).help))) :=
      run_write_unlimited _ room
    have ended : (act programs cx ("help" :: post)).run m = .error .exit _ := exited
    rw [bareRun, askedRun, bind_of_ok started, bind_of_ok started, listed, ended]
    -- how much the stream still takes is not reported
    exact report_of_alike ((Session.Alike.log m _).record _) 0

/-- **Help ends everything.** For any directives before and behind: a dispatch on the registry of
the build with `help` between them is the dispatch without those behind it, in every session and
whatever programs do; and it never succeeds. If the directives before succeed, the run is over with
the listing written behind their output, and nothing else has happened since, as long as the stream
takes the listing, as one without a limit does. And `x` without directives has the same status and
output, and leaves the same world, as when help is the first of them. -/
theorem help_ends_everything (registry : Registry Action) (built : buildRegistry = .ok registry)
    (programs : Programs) (cx : Context) (pre post : List String) :
    registry.run programs cx (pre ++ ["help"] ++ post) =
      registry.run programs cx (pre ++ ["help"]) ∧
    (∀ s s', (registry.run programs cx (pre ++ ["help"] ++ post)).run s ≠ .ok () s') ∧
    (∀ s m, (registry.run programs cx pre).run s = .ok () m →
      (s.room = none → m.Takes registry.help) ∧
      (m.Takes registry.help → ∃ e,
        (registry.run programs cx (pre ++ ["help"] ++ post)).run s = .error .exit e ∧
        e.output = m.output ++ Text.utf8 registry.help ∧
        e.launches = m.launches ∧ e.world = m.world)) ∧
    ∀ (root : Path) (w : World),
      let bare := Program.run programs root .x [] w
      let asked := Program.run programs root .x ("help" :: post) w
      asked.status = bare.status ∧ asked.output = bare.output ∧ asked.world = bare.world := by
  obtain rfl : registry = ⟨buildCommands⟩ :=
    Except.ok.inj (built.symm.trans Registry.buildRegistry_eq)
  refine ⟨?_, fun s s' done => ?_, fun s m before => ⟨fun unlimited => ?_, fun takes => ?_⟩,
    fun root w => report_help programs root post w⟩
  · have alone := Registry.run_help programs cx pre []
    rw [List.append_nil] at alone
    rw [alone, Registry.run_help]
  · rw [Registry.run_help] at done
    obtain ⟨_, mid, _, shown⟩ := bind_eq_ok.mp done
    exact Registry.helpJob_ne_ok mid () s' shown
  · have room := (Registry.limited_run _ programs cx pre).room_eq_none before unlimited
    intro limit full
    cases room.symm.trans full
  · obtain ⟨room, exited⟩ := Registry.run_help_of_ok before takes post
    refine ⟨_, exited, ?_, ?_, rfl⟩
    · exact (Session.output_record_wrote _ _).trans (congrArg (· ++ _)
        (Session.output_record_logged m _))
    · exact (Session.launches_wrote _ _).trans (Session.launches_log m _)

/-- A directive that is unknown and one that runs a program come before help, and one that would
remove artifacts behind it. -/
theorem help_ends_everything_between :
    let failing : Programs := fun _ w => .ok ⟨.code 1, w.files, "", ""⟩
    ∃ registry m e, buildRegistry = .ok registry ∧
      (registry.run failing withZigContext ["nothing", "tests"]).run (.start withZig) = .ok () m ∧
      (registry.run failing withZigContext (["nothing", "tests"] ++ ["help"] ++ ["clean"])).run
        (.start withZig) = .error .exit e ∧
      e.output = Text.utf8 ("unknown build directive: nothing\n" ++ registry.help) ∧
      e.launches = [⟨⟨"/bin/zig"⟩, ["build", "tests"], ⟨"/"⟩⟩] := by
  intro failing
  let before := (Registry.mk buildCommands).run failing withZigContext ["nothing", "tests"]
  have succeeds : before.succeeds (.start withZig) = true := by decide +kernel
  have output : (before.final (.start withZig)).output =
      Text.utf8 "unknown build directive: nothing\n" := by decide +kernel
  have launches : (before.final (.start withZig)).launches =
      [⟨⟨"/bin/zig"⟩, ["build", "tests"], ⟨"/"⟩⟩] := by decide +kernel
  obtain ⟨_, done⟩ := run_eq_ok_of_succeeds succeeds
  obtain ⟨_, _, shown, _⟩ := help_ends_everything _ Registry.buildRegistry_eq failing
    withZigContext ["nothing", "tests"] ["clean"]
  obtain ⟨takes, ends⟩ := shown (.start withZig) _ done
  obtain ⟨e, exited, written, launched, _⟩ := ends (takes rfl)
  refine ⟨_, _, e, Registry.buildRegistry_eq, done, exited, ?_, launched.trans launches⟩
  rw [written, output, Text.utf8_append]

end Program

end BuildRunner
