import BuildRunner.Proofs.Registry.Nesting
import BuildRunner.Proofs.Session.Guarantee

/-!
# The jobs of a dispatch

Every job belongs to a directive, and stands there among the jobs of one command, behind all jobs of
the directives before. So what comes before a job of a command when it is done can be read off the
command, whatever else is dispatched.

What each job guarantees, a list of jobs guarantees.
-/

namespace BuildRunner.Registry

variable {α : Type} {registry : Registry α} {directives : List String} {job : Job α}

/-! ## Actions of jobs -/

/-- The action that a job is to perform. -/
def Job.action? : Job α → Option α
  | prerequisite action => some action
  | own _ action => some action
  | unknown _ => none

theorem Job.Performs.action?_eq [Named α] {action : α} {s m : Session}
    (h : job.Performs s action m) : job.action? = some action := by
  cases h <;> rfl

theorem Job.exists_performs [Named α] {action : α} (h : job.action? = some action) (s : Session) :
    ∃ m, job.Performs s action m := by
  cases job with
  | prerequisite own =>
    cases h
    exact ⟨_, .prerequisite action s⟩
  | own command own =>
    cases h
    exact ⟨_, .own command action s⟩
  | unknown directive => cases h

/-! ## Jobs of commands -/

theorem jobs_append (registry : Registry α) (first second : List String) :
    registry.jobs (first ++ second) = registry.jobs first ++ registry.jobs second :=
  List.flatMap_append

/-- A directive with a job that performs an action is a command. -/
theorem exists_command_of_mem_directiveJobs {directive : String} {action : α}
    (mem : job ∈ registry.directiveJobs directive) (performs : job.action? = some action) :
    ∃ command ∈ registry.commands, registry.directiveJobs directive = commandJobs command := by
  rw [directiveJobs] at mem ⊢
  cases found : registry.get? directive with
  | none =>
    rw [found] at mem
    cases List.mem_singleton.mp mem
    cases performs
  | some command => exact ⟨command, List.mem_of_find?_eq_some found, rfl⟩

/-- A job that performs an action is one of a command. -/
theorem exists_command_of_mem_jobs {action : α} (mem : job ∈ registry.jobs directives)
    (performs : job.action? = some action) :
    ∃ command ∈ registry.commands, job ∈ commandJobs command := by
  obtain ⟨directive, _, mem⟩ := List.mem_flatMap.mp mem
  obtain ⟨command, listed, same⟩ := exists_command_of_mem_directiveJobs mem performs
  exact ⟨command, listed, same ▸ mem⟩

/-- A command performs its prerequisites and its own action. -/
theorem action_of_mem_commandJobs {command : Command α} {action : α}
    (mem : job ∈ commandJobs command) (performs : job.action? = some action) :
    action ∈ command.prerequisites ∨ command.action = some action := by
  rcases List.mem_append.mp mem with before | own
  · obtain ⟨other, listed, rfl⟩ := List.mem_map.mp before
    cases performs
    exact .inl listed
  · obtain ⟨other, listed, rfl⟩ := List.mem_map.mp own
    cases performs
    exact .inr (Option.mem_toList.mp listed)

/-- The jobs before a job are those of the directives before its own, and those before it there. -/
theorem exists_block_of_split {before after : List (Job α)}
    (split : registry.jobs directives = before ++ job :: after) :
    ∃ first directive rest inner behind, directives = first ++ directive :: rest ∧
      registry.directiveJobs directive = inner ++ job :: behind ∧
      before = registry.jobs first ++ inner := by
  induction directives generalizing before with
  | nil => exact absurd split.symm (by simp [jobs])
  | cons directive directives ih =>
    rw [jobs, List.flatMap_cons] at split
    rcases List.append_eq_append_iff.mp split with ⟨more, rfl, later⟩ | ⟨more, own, later⟩
    · obtain ⟨first, other, rest, inner, behind, rfl, block, rfl⟩ := ih later
      exact ⟨directive :: first, other, rest, inner, behind, rfl, block, by simp [jobs]⟩
    · cases more with
      | nil =>
        -- the job is the first one of the directives behind
        have split' : registry.jobs directives = [] ++ job :: after := later.symm
        obtain ⟨first, other, rest, inner, behind, rfl, block, none⟩ := ih split'
        refine ⟨directive :: first, other, rest, inner, behind, rfl, block, ?_⟩
        rw [List.append_nil] at own
        rw [jobs, List.flatMap_cons, List.append_assoc, ← jobs, ← none, own, List.append_nil]
      | cons next more =>
        obtain ⟨rfl, _⟩ := List.cons.inj later
        exact ⟨[], directive, directives, before, more, rfl, own, rfl⟩

/-! ## Guarantees -/

section Guarantee

open Run

variable [Named α] {perform : α → Run Unit} {R : Session → Session → Prop} {jobs : List (Job α)}
  {s s' : Session}

/-- A job guarantees what notices do, and what its action does. -/
theorem Job.ensures (guarantee : Guarantee R)
    (notice : ∀ directive, Ensures R (write (unknownNotice directive)))
    (performs : ∀ action, job.action? = some action → Ensures R (perform action)) :
    Ensures R (job.run perform) := by
  cases job with
  | prerequisite action =>
    exact guarantee.bind (guarantee.closed.of_log _ _ _) fun _ => performs action rfl
  | own command action =>
    exact guarantee.bind (guarantee.closed.of_log _ _ _) fun _ => performs action rfl
  | unknown directive => exact notice directive

/-- A list of jobs guarantees what each of them does, whether all are done or not. -/
theorem ensures_runJobs (guarantee : Guarantee R)
    (each : ∀ job ∈ jobs, Ensures R (job.run perform)) : Ensures R (runJobs perform jobs) := by
  induction jobs with
  | nil => exact guarantee.refl
  | cons job jobs ih =>
    obtain ⟨own, others⟩ := List.forall_mem_cons.mp each
    exact guarantee.bind own fun _ => ih others

theorem Completes.related (completed : Completes perform jobs s s') (guarantee : Guarantee R)
    (each : ∀ job ∈ jobs, Ensures R (job.run perform)) : R s s' :=
  (ensures_runJobs guarantee each).of_ok (runJobs_eq_ok.mpr completed)

/-- Each of the jobs that are all done succeeds where its turn comes. -/
theorem Completes.of_mem (completed : Completes perform jobs s s') (mem : job ∈ jobs) :
    ∃ m m', (job.run perform).run m = .ok () m' := by
  induction completed with
  | done => exact absurd mem List.not_mem_nil
  | step first rest ih =>
    rcases List.mem_cons.mp mem with rfl | later
    · exact ⟨_, _, first⟩
    · exact ih later

end Guarantee

end BuildRunner.Registry
