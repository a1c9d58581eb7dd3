import BuildRunner.Proofs.Registry.Frame

/-!
# Without Asciidoctor

Three commands of the build need Asciidoctor, and each of them prepares the documentation before its
own action, so that they fail before any page is rendered. What is done without Asciidoctor is
therefore to start Zig and to remove artifacts, and nothing else.

`Course` is how the world goes on in such a dispatch. Each action keeps to it, whether it fails or
not, and so does every list of jobs. That preparing the documentation fails is enough for the rest:
a dispatch in which it comes up cannot succeed, and where it comes up first the dispatch ends.
-/

namespace BuildRunner

open Run

variable {programs : Programs} {cx : Context} {w w' w'' : World} {started more : List Launch}

/-! ## Starting Zig and removing artifacts -/

/-- How the world goes on when nothing is done but starting Zig in the root, which leaves what
it leaves, and removing artifacts; with the launches on the way. -/
inductive Course (programs : Programs) (cx : Context) : World → World → List Launch → Prop
  | stay {w : World} : Course programs cx w w []
  | clean {w w' : World} : World.Shrinks (cx.artifactPaths w) w w' → Course programs cx w w' []
  | zig {w : World} {arguments : List String} {launch : Launch} {outcome : Outcome} :
    Invocation.Starts programs cx.root ⟨cx.zig, arguments⟩ w launch outcome →
      Course programs cx w (w.withFiles outcome.files) [launch]
  | trans {w w' w'' : World} {started more : List Launch} :
    Course programs cx w w' started → Course programs cx w' w'' more →
      Course programs cx w w'' (started ++ more)

namespace Course

/-- All programs started are Zig, in the root. -/
theorem of_mem (h : Course programs cx w w' started) : ∀ launch ∈ started,
    launch.directory = cx.root ∧ ∃ m : World, m.executable cx.zig = .ok launch.program := by
  induction h with
  | stay => exact fun _ mem => absurd mem List.not_mem_nil
  | clean _ => exact fun _ mem => absurd mem List.not_mem_nil
  | zig starts =>
    intro launch mem
    cases List.mem_singleton.mp mem
    exact ⟨starts.directory, _, starts.program⟩
  | trans _ _ ih ih' =>
    intro launch mem
    exact (List.mem_append.mp mem).elim (ih launch) (ih' launch)

/-- A directory that is there at the end was there at the start, or was left by a program. -/
theorem isDirectoryAt {location : Location} (h : Course programs cx w w' started)
    (stands : w'.files.isDirectoryAt location = true) :
    w.files.isDirectoryAt location = true ∨ ∃ launch ∈ started, ∃ (m : World) (outcome : Outcome),
      programs launch m = .ok outcome ∧ outcome.files.isDirectoryAt location = true := by
  induction h with
  | stay => exact .inl stands
  | clean shrinks => exact .inl (shrinks.part.files.isDirectoryAt stands)
  | zig starts => exact .inr ⟨_, List.mem_singleton_self _, _, _, starts.ran, stands⟩
  | trans _ _ ih ih' =>
    rcases ih' stands with before | ⟨launch, mem, left⟩
    · refine (ih before).imp_right ?_
      rintro ⟨launch, mem, left⟩
      exact ⟨launch, List.mem_append_left _ mem, left⟩
    · exact .inr ⟨launch, List.mem_append_right _ mem, left⟩

end Course

/-- From one session to another the world took such a course, with the launches between them. -/
def Keeps (programs : Programs) (cx : Context) (s s' : Session) : Prop :=
  ∃ started, s'.launches = s.launches ++ started ∧ Course programs cx s.world s'.world started

theorem Keeps.guarantee (programs : Programs) (cx : Context) : Guarantee (Keeps programs cx) where
  refl _ := ⟨[], (List.append_nil _).symm, .stay⟩
  trans := by
    rintro a b c ⟨started, launches, course⟩ ⟨more, launches', course'⟩
    exact ⟨started ++ more, by rw [launches', launches, List.append_assoc], course.trans course'⟩
  log _ _ := ⟨[], by simp, .stay⟩

theorem ensures_write (programs : Programs) (cx : Context) (text : String) :
    Ensures (Keeps programs cx) (write text) := by
  intro s
  obtain ⟨bytes, room, ended⟩ := final_write text s
  rw [ended]
  exact ⟨[], by rw [List.append_nil]; exact s.launches_wrote bytes, .stay⟩

/-! ## Actions without Asciidoctor -/

namespace Context

theorem ensures_zig (programs : Programs) (cx : Context) (arguments : List String) :
    Ensures (Keeps programs cx) (Invocation.run programs cx.root ⟨cx.zig, arguments⟩) := by
  have guarantee := Keeps.guarantee programs cx
  refine Invocation.closed_run guarantee.closed (Invocation.ensures_start guarantee ?_)
  intro s launch outcome starts
  exact ⟨[launch], Session.launches_after s launch outcome, .zig starts⟩

theorem ensures_clean (programs : Programs) (cx : Context) :
    Ensures (Keeps programs cx) cx.clean := by
  have remove (path : Path) :
      Ensures (fun s s' => s'.launches = s.launches) (removePath path) := by
    intro s
    rw [removePath, final_world_bind, final_lift_bind]
    cases s.world.remove path <;> rfl
  intro s
  refine ⟨[], ?_, .clean (cx.shrinks_clean s)⟩
  rw [List.append_nil]
  exact cx.closed_clean launches_guarantee.closed remove s

variable (missing : cx.asciidoctor = none)

include missing

theorem needAsciidoctor_of_missing : cx.needAsciidoctor = throw (.toolMissing .asciidoctor) := by
  rw [needAsciidoctor, missing]

theorem prepareDocs_of_missing : cx.prepareDocs = throw (.toolMissing .asciidoctor) := by
  rw [prepareDocs, needAsciidoctor_of_missing missing]
  rfl

theorem manPagesPlan_of_missing : cx.manPagesPlan = throw (.toolMissing .asciidoctor) := by
  rw [manPagesPlan, needAsciidoctor_of_missing missing]
  rfl

/-- There is nothing to render for the site, or it fails. -/
theorem sitePlan_of_missing {s s' : Session} {plan : List Invocation}
    (h : cx.sitePlan.run s = .ok plan s') : plan = [] := by
  rw [sitePlan, needAsciidoctor_of_missing missing, bind_of_ok (run_world s)] at h
  split at h
  · cases h
  · cases h
    rfl

theorem ensures_perform {registry : Registry Action} {depth : Nat} (deep : depth ≠ 0)
    {action : Action} (builtin : ∀ content, action ≠ .recipe content) :
    Ensures (Keeps programs cx) (action.perform programs cx registry depth) := by
  obtain ⟨depth, rfl⟩ := Nat.exists_eq_succ_of_ne_zero deep
  have guarantee := Keeps.guarantee programs cx
  cases action with
  | tests summary => exact ensures_zig programs cx _
  | clean => exact ensures_clean programs cx
  | docs =>
    rw [Action.perform, prepareDocs_of_missing missing]
    exact guarantee.closed.of_throw _
  | help => exact guarantee.bind (ensures_write programs cx _) fun _ => guarantee.closed.of_throw _
  | build => exact ensures_zig programs cx _
  | site =>
    intro s
    have planned := cx.closed_sitePlan guarantee.closed s
    rw [Action.perform, final_bind]
    cases plan : cx.sitePlan.run s with
    | ok invocations mid =>
      rw [final_of_ok plan] at planned
      cases sitePlan_of_missing missing plan
      exact planned
    | error failure e => rwa [final_of_error plan] at planned
  | manPages =>
    rw [Action.perform, manPagesPlan_of_missing missing]
    exact guarantee.closed.of_throw _
  | recipe content => exact absurd rfl (builtin content)

end Context

namespace Registry

variable {registry : Registry Action} {directives : List String} {s s' m : Session}
  {job : Job Action}

/-! ## Where the documentation is to be prepared -/

/-- The jobs of a directive before the documentation is prepared. -/
def beforeDocs (registry : Registry Action) (directive : String) : List (Job Action) :=
  (registry.directiveJobs directive).takeWhile fun job => job.action? ≠ some .docs

/-- Only `all` does something before. -/
example : beforeDocs ⟨buildCommands⟩ "all" = [.prerequisite (.tests true)] := rfl

/-- The commands that render pages prepare the documentation. -/
theorem directiveJobs_eq (built : buildRegistry = .ok registry) :
    ∀ directive ∈ ["docs", "all", "site", "man-pages"], ∃ docs behind,
      registry.directiveJobs directive = registry.beforeDocs directive ++ docs :: behind ∧
        docs.action? = some .docs := by
  cases built
  simp only [List.forall_mem_cons, List.not_mem_nil, false_implies, implies_true, and_true]
  exact ⟨⟨_, _, rfl, rfl⟩, ⟨_, _, rfl, rfl⟩, ⟨_, _, rfl, rfl⟩, ⟨_, _, rfl, rfl⟩⟩

section Build

variable (missing : cx.asciidoctor = none)

include missing

/-- Where the documentation is to be prepared, the dispatch fails without doing anything. -/
theorem run_of_docs {before after : List (Job Action)}
    (split : registry.jobs directives = before ++ job :: after) (docs : job.action? = some .docs)
    (completed : Completes (Action.perform programs cx registry nestingLimit) before s m) :
    ∃ e, job.Performs m .docs e ∧
      (registry.run programs cx directives).run s = .error (.toolMissing .asciidoctor) e := by
  obtain ⟨e, performs⟩ := Job.exists_performs docs m
  refine ⟨e, performs, ?_⟩
  rw [run, dispatch_eq_runJobs]
  refine runJobs_eq_error.mpr ⟨before, job, after, m, split, completed, ?_⟩
  rw [performs.run_eq, Action.perform_eq_of_step nestingLimit_ne_zero rfl,
    Context.prepareDocs_of_missing missing]
  rfl

/-- A job that prepares the documentation or shows help does not succeed. -/
theorem Job.run_ne_ok (ends : job.action? = some .docs ∨ job.action? = some .help) :
    (job.run (Action.perform programs cx registry nestingLimit)).run m ≠ .ok () s' := by
  intro done
  rcases ends with docs | help
  · obtain ⟨e, performs⟩ := Job.exists_performs docs m
    rw [performs.run_eq, Action.perform_eq_of_step nestingLimit_ne_zero rfl,
      Context.prepareDocs_of_missing missing] at done
    cases done
  · obtain ⟨e, performs⟩ := Job.exists_performs help m
    obtain ⟨depth, limit⟩ := Nat.exists_eq_succ_of_ne_zero nestingLimit_ne_zero
    rw [performs.run_eq, limit] at done
    obtain ⟨_, mid, _, ended⟩ := bind_eq_ok.mp done
    cases ended

end Build

/-- **Without Asciidoctor nothing is rendered, and nothing but Zig is started.** Whatever is
dispatched on the registry of the build, in whatever session, whatever programs do, and whether it
fails or not:

The world goes on only by Zig being started in the root and by artifacts being removed, and the
launches are those of Zig. So a directory that is there at the end was there at the start or was
left by Zig.

The dispatch succeeds only if no directive needs Asciidoctor and none asks for help.

If the jobs up to the preparation of the documentation of a directive that needs Asciidoctor have
all succeeded, the dispatch fails there because Asciidoctor is missing, and nothing is done after
that preparation was announced. -/
theorem run_without_asciidoctor (programs : Programs) (cx : Context)
    (missing : cx.asciidoctor = none) (registry : Registry Action)
    (built : buildRegistry = .ok registry) (directives : List String) (s : Session) :
    (∃ started,
      ((registry.run programs cx directives).final s).launches = s.launches ++ started ∧
      Course programs cx s.world ((registry.run programs cx directives).final s).world started ∧
      (∀ launch ∈ started,
        launch.directory = cx.root ∧ ∃ m : World, m.executable cx.zig = .ok launch.program) ∧
      ∀ location, ((registry.run programs cx directives).final s).world.files.isDirectoryAt
          location = true →
        s.world.files.isDirectoryAt location = true ∨
          ∃ launch ∈ started, ∃ (m : World) (outcome : Outcome),
            programs launch m = .ok outcome ∧ outcome.files.isDirectoryAt location = true) ∧
    (∀ s', (registry.run programs cx directives).run s = .ok () s' →
      ∀ directive ∈ ["docs", "all", "site", "man-pages", "help"], directive ∉ directives) ∧
    ∀ first directive rest m, directives = first ++ directive :: rest →
      directive ∈ ["docs", "all", "site", "man-pages"] →
      Completes (Action.perform programs cx registry nestingLimit)
        (registry.jobs first ++ registry.beforeDocs directive) s m →
      ∃ docs behind e,
        registry.directiveJobs directive = registry.beforeDocs directive ++ docs :: behind ∧
        docs.Performs m .docs e ∧
        (registry.run programs cx directives).run s = .error (.toolMissing .asciidoctor) e := by
  have each : ∀ job ∈ registry.jobs directives, Ensures (Keeps programs cx)
      (job.run (Action.perform programs cx registry nestingLimit)) := fun job mem =>
    job.ensures (Keeps.guarantee programs cx) (fun _ => ensures_write programs cx _) fun _ own =>
      Context.ensures_perform missing nestingLimit_ne_zero (builtin_of_mem_jobs built mem own)
  refine ⟨?_, fun s' done directive listed mem => ?_, ?_⟩
  · have kept : Ensures (Keeps programs cx) (registry.run programs cx directives) := by
      rw [run, dispatch_eq_runJobs]
      exact ensures_runJobs (Keeps.guarantee programs cx) each
    obtain ⟨started, launches, course⟩ := kept s
    exact ⟨started, launches, course, course.of_mem, fun _ => course.isDirectoryAt⟩
  · -- one of the jobs of the directive does not succeed
    rw [run, dispatch_eq_runJobs] at done
    obtain ⟨job, own, ends⟩ : ∃ job ∈ registry.directiveJobs directive,
        job.action? = some .docs ∨ job.action? = some .help := by
      have split : directive ∈ ["docs", "all", "site", "man-pages"] ∨ directive = "help" := by
        simpa [or_assoc] using listed
      rcases split with four | rfl
      · obtain ⟨docs, behind, block, own⟩ := directiveJobs_eq built directive four
        rw [block]
        exact ⟨docs, List.mem_append_right _ List.mem_cons_self, .inl own⟩
      · cases built
        exact ⟨.own "help" .help, List.mem_singleton_self _, .inr rfl⟩
    obtain ⟨m, m', succeeded⟩ := (runJobs_eq_ok.mp done).of_mem
      (List.mem_flatMap.mpr ⟨directive, mem, own⟩)
    exact Job.run_ne_ok missing ends succeeded
  · rintro first directive rest m rfl listed completed
    obtain ⟨docs, behind, block, own⟩ := directiveJobs_eq built directive listed
    have split : registry.jobs (first ++ directive :: rest) =
        (registry.jobs first ++ registry.beforeDocs directive) ++
          docs :: (behind ++ registry.jobs rest) := by
      simp [jobs, block]
    obtain ⟨e, performs, failed⟩ := run_of_docs missing split own completed
    exact ⟨docs, behind, e, block, performs, failed⟩

/-- An empty project beside Zig. -/
def onlyZig : Session :=
  ⟨⟨.ofList [("p", .directory .empty), ("zig", .file .empty true)], [], ⟨[]⟩⟩, none, []⟩

/-- Zig is started once for `all`, which fails before anything is rendered; `build` is not begun. -/
theorem run_without_asciidoctor_all :
    let idle : Programs := fun _ w => .ok ⟨.code 0, w.files, "", ""⟩
    let cx : Context := ⟨⟨"/p"⟩, ⟨"/zig"⟩, none, .default⟩
    cx.asciidoctor = none ∧ ∃ registry e, buildRegistry = .ok registry ∧
      (registry.run idle cx ["clean", "all", "build"]).run onlyZig =
        .error (.toolMissing .asciidoctor) e ∧
      e.launches = [⟨⟨"/zig"⟩, ["build", "tests", "--summary", "all"], ⟨"/p"⟩⟩] := by
  intro idle cx
  let before := runJobs (Action.perform idle cx ⟨buildCommands⟩ nestingLimit)
    (jobs ⟨buildCommands⟩ ["clean"] ++ beforeDocs ⟨buildCommands⟩ "all")
  have succeeded : before.succeeds onlyZig = true := by decide +kernel
  have launches : (before.final onlyZig).launches =
      [⟨⟨"/zig"⟩, ["build", "tests", "--summary", "all"], ⟨"/p"⟩⟩] := by decide +kernel
  obtain ⟨_, ran⟩ := run_eq_ok_of_succeeds succeeded
  obtain ⟨_, _, reached⟩ :=
    run_without_asciidoctor idle cx rfl _ buildRegistry_eq ["clean", "all", "build"] onlyZig
  obtain ⟨docs, behind, e, block, performs, failed⟩ :=
    reached ["clean"] "all" ["build"] _ rfl (by decide) (runJobs_eq_ok.mp ran)
  refine ⟨rfl, _, e, buildRegistry_eq, failed, ?_⟩
  rw [← launches]
  cases performs <;> exact Session.launches_log _ _

end Registry

end BuildRunner
