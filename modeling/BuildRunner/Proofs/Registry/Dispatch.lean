import BuildRunner.Proofs.Session
import BuildRunner.Registry.Job

/-!
# A dispatch does one flat list of jobs

A dispatch is two nested loops: over the directives, and within a directive over the prerequisites
of its command. Either can be left by a failure. `jobs` flattens both loops without looking at how
anything goes, and `runJobs` has one loop and one way out.

The two agree as runs, so in every session, with every outcome, and for actions that are any runs at
all. What is left is to say what the one loop does, and this is `Completes`: jobs that all succeed,
each from where the one before it ended. Nothing here restricts the registry or the actions. In
particular an action may dispatch again, and directives may repeat.
-/

namespace BuildRunner.Registry

variable {α : Type} [Named α] {perform : α → Run Unit} {s s' : Session}

/-! ## Jobs that all succeed -/

/-- All jobs succeed, one after the other, and lead from one session to another. -/
inductive Completes (perform : α → Run Unit) : List (Job α) → Session → Session → Prop
  | done {s : Session} : Completes perform [] s s
  | step {job : Job α} {jobs : List (Job α)} {s mid s' : Session} :
      (job.run perform).run s = .ok () mid → Completes perform jobs mid s' →
        Completes perform (job :: jobs) s s'

/-- A run of jobs succeeds exactly when all of them do. -/
theorem runJobs_eq_ok {jobs : List (Job α)} :
    (runJobs perform jobs).run s = .ok () s' ↔ Completes perform jobs s s' := by
  induction jobs generalizing s with
  | nil =>
    constructor
    · intro h
      cases h
      exact .done
    · intro h
      cases h
      rfl
  | cons job jobs ih =>
    rw [runJobs, Run.bind_eq_ok]
    constructor
    · rintro ⟨⟨⟩, mid, first, rest⟩
      exact .step first (ih.mp rest)
    · intro h
      cases h with
      | step first rest => exact ⟨(), _, first, ih.mpr rest⟩

/-- A run of jobs fails exactly when one of them does after all before it have succeeded. It ends
with the failure of that job, in the session that job left. -/
theorem runJobs_eq_error {jobs : List (Job α)} {failure : Failure} :
    (runJobs perform jobs).run s = .error failure s' ↔
      ∃ before job after mid, jobs = before ++ job :: after ∧ Completes perform before s mid ∧
        (job.run perform).run mid = .error failure s' := by
  induction jobs generalizing s with
  | nil =>
    constructor
    · intro h
      cases h
    · rintro ⟨before, job, after, mid, split, _⟩
      cases before <;> cases split
  | cons first jobs ih =>
    rw [runJobs, Run.bind_eq_error]
    constructor
    · rintro (failed | ⟨⟨⟩, mid, succeeded, rest⟩)
      · exact ⟨[], first, jobs, s, rfl, .done, failed⟩
      · obtain ⟨before, job, after, mid', rfl, completed, failed⟩ := ih.mp rest
        exact ⟨first :: before, job, after, mid', rfl, .step succeeded completed, failed⟩
    · rintro ⟨before, job, after, mid, split, completed, failed⟩
      cases completed with
      | done =>
        cases split
        exact .inl failed
      | step succeeded rest =>
        cases split
        exact .inr ⟨(), _, succeeded, ih.mpr ⟨_, job, after, mid, rfl, rest, failed⟩⟩

/-! ## Both loops as one -/

/-- A single job is run as it is. -/
theorem runJobs_singleton (job : Job α) : runJobs perform [job] = job.run perform :=
  bind_pure_unit

/-- Jobs behind each other are run one list after the other. -/
theorem runJobs_append (first second : List (Job α)) :
    runJobs perform (first ++ second) =
      runJobs perform first >>= fun _ => runJobs perform second := by
  induction first with
  | nil => rw [List.nil_append, runJobs, pure_bind]
  | cons job first ih => rw [List.cons_append, runJobs, runJobs, ih, bind_assoc]

/-- The prerequisites of a command are its first jobs. -/
theorem runPrerequisites_eq_runJobs (actions : List α) :
    Command.runPrerequisites perform actions = runJobs perform (actions.map .prerequisite) := by
  induction actions with
  | nil => rfl
  | cons action actions ih =>
    rw [Command.runPrerequisites, ih, List.map_cons, runJobs, Job.run, bind_assoc]

/-- A command does its jobs. -/
theorem run_eq_runJobs (command : Command α) :
    command.run perform = runJobs perform (commandJobs command) := by
  rw [Command.run, commandJobs, runJobs_append, runPrerequisites_eq_runJobs]
  cases command.action with
  | none => rfl
  | some action =>
    rw [Option.toList_some, List.map_singleton, runJobs_singleton]
    rfl

/-- A dispatch does the jobs of its directives. -/
theorem dispatch_eq_runJobs (registry : Registry α) (directives : List String) :
    registry.dispatch perform directives = runJobs perform (registry.jobs directives) := by
  induction directives with
  | nil => rfl
  | cons directive directives ih =>
    rw [dispatch, jobs, List.flatMap_cons, runJobs_append, ← jobs, ← ih, directiveJobs]
    cases registry.get? directive with
    | some command =>
      rw [← run_eq_runJobs]
    | none =>
      rw [runJobs_singleton]
      rfl

/-- **A dispatch is one flat list of jobs, done in order up to the first that fails.** The list is
that of the directives: for a command its prerequisites and then its own action, for any other
directive the one job of writing `unknown build directive: `, the directive and a line feed. The
dispatch succeeds exactly when all jobs do. It fails exactly when a job fails after all jobs before
it have succeeded, and then with the failure of that job and in the session that job left: none of
the jobs after it has changed anything. -/
theorem dispatch_flat (registry : Registry α) (perform : α → Run Unit)
    (directives : List String) (s : Session) :
    registry.dispatch perform directives = runJobs perform (registry.jobs directives) ∧
    (∀ directive, registry.get? directive = none →
      registry.directiveJobs directive = [.unknown directive] ∧
      (Job.unknown directive).run perform =
        Run.write ("unknown build directive: " ++ directive ++ "\n")) ∧
    (∀ s', (registry.dispatch perform directives).run s = .ok () s' ↔
      Completes perform (registry.jobs directives) s s') ∧
    (∀ failure s', (registry.dispatch perform directives).run s = .error failure s' ↔
      ∃ before job after mid, registry.jobs directives = before ++ job :: after ∧
        Completes perform before s mid ∧ (job.run perform).run mid = .error failure s') := by
  refine ⟨dispatch_eq_runJobs registry directives, fun directive unknown => ⟨?_, rfl⟩,
    fun s' => ?_, fun failure s' => ?_⟩
  · rw [directiveJobs, unknown]
  · rw [dispatch_eq_runJobs]
    exact runJobs_eq_ok
  · rw [dispatch_eq_runJobs]
    exact runJobs_eq_error

end BuildRunner.Registry
