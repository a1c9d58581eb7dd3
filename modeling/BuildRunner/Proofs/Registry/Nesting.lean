import BuildRunner.Action.Procedure
import BuildRunner.Proofs.Registry.Dispatch

/-!
# Failures from nested dispatches

An action may dispatch on the registry that performs it, so a failure can arise below any number of
dispatches, each with jobs and directives still to come. The law is that none of them is begun: the
outermost dispatch ends with this failure and in the very session in which it arose. As every job
that is begun is announced in the session, or writes to it, this says that nothing was begun since.

`Starts` follows a dispatch down to any job that is begun, and `Job.Raises` says that a job fails of
its own accord, not by a dispatch it asked for. A failure goes up from a job to its dispatch by the
flat list of jobs, and from there to the action that dispatched because a procedure cannot go on
after a failure. So one direction is an induction on the way down to a job, the other on the depth.

Nothing is assumed of registry, actions or session. Fewer dispatches are followed than there could
be when the depth runs out; this is a failure like any other and arises in the action that is nested
too deeply.
-/

namespace BuildRunner

variable {α β : Type} [Named α] {s m e : Session} {failure : Failure}

/-! ## Procedures -/

namespace Procedure

variable {dispatch : List String → Run Unit}

/-- A procedure that runs from `s` fails in a part that is no dispatch. -/
def Raises (dispatch : List String → Run Unit) :
    {β : Type} → Procedure β → Session → Failure → Session → Prop
  | _, .step own, s, failure, e => own.run s = .error failure e
  | _, .write text, s, failure, e => (Run.write text).run s = .error failure e
  | _, .dispatch _, _, _, _ => False
  | _, .bind first next, s, failure, e => first.Raises dispatch s failure e ∨
      ∃ answer mid, (first.run dispatch).run s = .ok answer mid ∧
        (next answer).Raises dispatch mid failure e

/-- A procedure that runs from `s` comes to dispatch directives in session `m`. -/
def Dispatches (dispatch : List String → Run Unit) :
    {β : Type} → Procedure β → Session → List String → Session → Prop
  | _, .step _, _, _, _ => False
  | _, .write _, _, _, _ => False
  | _, .dispatch own, s, directives, m => own = directives ∧ s = m
  | _, .bind first next, s, directives, m => first.Dispatches dispatch s directives m ∨
      ∃ answer mid, (first.run dispatch).run s = .ok answer mid ∧
        (next answer).Dispatches dispatch mid directives m

theorem run_of_raises {p : Procedure β} (h : p.Raises dispatch s failure e) :
    (p.run dispatch).run s = .error failure e := by
  induction p generalizing s with
  | step own => exact h
  | write text => exact h
  | dispatch directives => exact h.elim
  | bind first next ihFirst ihNext =>
    rcases h with h | ⟨answer, mid, succeeded, h⟩
    · exact Run.bind_of_error (ihFirst h)
    · exact (Run.bind_of_ok succeeded).trans (ihNext answer h)

/-- A procedure passes on the failure of a dispatch. -/
theorem run_of_dispatches {p : Procedure β} {directives : List String}
    (h : p.Dispatches dispatch s directives m)
    (failed : (dispatch directives).run m = .error failure e) :
    (p.run dispatch).run s = .error failure e := by
  induction p generalizing s with
  | step own => exact h.elim
  | write text => exact h.elim
  | dispatch own =>
    obtain ⟨rfl, rfl⟩ := h
    exact failed
  | bind first next ihFirst ihNext =>
    rcases h with h | ⟨answer, mid, succeeded, h⟩
    · exact Run.bind_of_error (ihFirst h)
    · exact (Run.bind_of_ok succeeded).trans (ihNext answer h)

/-- A procedure that fails does so in a part of its own, or in a dispatch it comes to. -/
theorem raises_or_dispatches {p : Procedure β}
    (h : (p.run dispatch).run s = .error failure e) :
    p.Raises dispatch s failure e ∨ ∃ directives m,
      p.Dispatches dispatch s directives m ∧ (dispatch directives).run m = .error failure e := by
  induction p generalizing s with
  | step own => exact .inl h
  | write text => exact .inl h
  | dispatch own => exact .inr ⟨own, s, ⟨rfl, rfl⟩, h⟩
  | bind first next ihFirst ihNext =>
    rcases Run.bind_eq_error.mp h with h | ⟨answer, mid, succeeded, h⟩
    · rcases ihFirst h with raised | ⟨directives, m, comes, failed⟩
      · exact .inl (.inl raised)
      · exact .inr ⟨directives, m, .inl comes, failed⟩
    · rcases ihNext answer h with raised | ⟨directives, m, comes, failed⟩
      · exact .inl (.inr ⟨answer, mid, succeeded, raised⟩)
      · exact .inr ⟨directives, m, .inr ⟨answer, mid, succeeded, comes⟩, failed⟩

end Procedure

namespace Registry

/-! ## Jobs and their actions -/

/-- A job that is begun in `s` announces an action and performs it from the session then reached. -/
inductive Job.Performs : Job α → Session → α → Session → Prop
  | prerequisite (action : α) (s : Session) : Performs (.prerequisite action) s action
      (s.record (.logged ⟨.info, .registry, "==> " ++ Named.name action⟩))
  | own (command : String) (action : α) (s : Session) : Performs (.own command action) s action
      (s.record (.logged ⟨.debug, .registry,
        "==> " ++ command ++ " (" ++ Named.name action ++ ")"⟩))

theorem Job.Performs.run_eq {job : Job α} {action : α} (h : job.Performs s action m)
    (perform : α → Run Unit) : (job.run perform).run s = (perform action).run m := by
  cases h <;> rfl

theorem Job.unknown_or_performs (job : Job α) (s : Session) :
    (∃ directive, job = .unknown directive) ∨ ∃ action m, job.Performs s action m := by
  cases job with
  | prerequisite action => exact .inr ⟨action, _, .prerequisite action s⟩
  | own command action => exact .inr ⟨action, _, .own command action s⟩
  | unknown directive => exact .inl ⟨directive, rfl⟩

variable {registry : Registry α} {procedure : α → Procedure Unit} {depth inner : Nat}
  {directives : List String} {job : Job α}

/-- A dispatch from `s` comes, at any depth, to begin a job in session `m`, in which dispatches are
still followed to the depth given with the job. -/
inductive Starts (registry : Registry α) (procedure : α → Procedure Unit) :
    Nat → List String → Session → Nat → Job α → Session → Prop
  | level {depth : Nat} {directives : List String} {s m : Session} {before after : List (Job α)}
      {job : Job α} :
      registry.jobs directives = before ++ job :: after →
      Completes (registry.performAt procedure depth) before s m →
      Starts registry procedure depth directives s depth job m
  | nested {depth inner : Nat} {directives further : List String}
      {s m entered asked begun : Session}
      {before after : List (Job α)} {outer job : Job α} {action : α} :
      registry.jobs directives = before ++ outer :: after →
      Completes (registry.performAt procedure (depth + 1)) before s m →
      outer.Performs m action entered →
      (procedure action).Dispatches (registry.dispatchAt procedure depth) entered further asked →
      Starts registry procedure depth further asked inner job begun →
      Starts registry procedure (depth + 1) directives s inner job begun

/-- A job that is begun in `s` fails of its own accord: a notice that cannot be written, an action
that fails in a part that is no dispatch, or one that is nested too deeply. -/
inductive Job.Raises (registry : Registry α) (procedure : α → Procedure Unit) :
    Nat → Job α → Session → Failure → Session → Prop
  | notice {depth : Nat} {directive : String} {s e : Session} {failure : Failure} :
      (Run.write (unknownNotice directive)).run s = .error failure e →
      Raises registry procedure depth (.unknown directive) s failure e
  | action {depth : Nat} {job : Job α} {action : α} {s entered e : Session} {failure : Failure} :
      job.Performs s action entered →
      (procedure action).Raises (registry.dispatchAt procedure depth) entered failure e →
      Raises registry procedure (depth + 1) job s failure e
  | tooDeep {job : Job α} {action : α} {s entered : Session} :
      job.Performs s action entered →
      Raises registry procedure 0 job s .nestedTooDeep entered

theorem Job.Raises.run_eq (h : job.Raises registry procedure depth s failure e) :
    (job.run (registry.performAt procedure depth)).run s = .error failure e := by
  cases h with
  | notice failed => exact failed
  | action performs raised => exact (performs.run_eq _).trans (Procedure.run_of_raises raised)
  | tooDeep performs => exact performs.run_eq _

/-! ## Up to the outermost dispatch and down again -/

/-- A dispatch ends with the failure of a job that it begins, however deep, and in the session this
job left. -/
theorem Starts.dispatchAt_eq_error
    (h : Starts registry procedure depth directives s inner job m)
    (failed : (job.run (registry.performAt procedure inner)).run m = .error failure e) :
    (registry.dispatchAt procedure depth directives).run s = .error failure e := by
  induction h with
  | level split completed =>
    rw [dispatchAt, dispatch_eq_runJobs, runJobs_eq_error]
    exact ⟨_, _, _, _, split, completed, failed⟩
  | nested split completed performs asks _ ih =>
    rw [dispatchAt, dispatch_eq_runJobs, runJobs_eq_error]
    refine ⟨_, _, _, _, split, completed, ?_⟩
    rw [performs.run_eq]
    exact Procedure.run_of_dispatches asks (ih failed)

/-- A dispatch that fails begins, at some depth, a job that fails so of its own accord. -/
theorem exists_raises_of_dispatchAt_eq_error
    (h : (registry.dispatchAt procedure depth directives).run s = .error failure e) :
    ∃ inner job m, Starts registry procedure depth directives s inner job m ∧
      job.Raises registry procedure inner m failure e := by
  induction depth generalizing directives s with
  | zero =>
    rw [dispatchAt, dispatch_eq_runJobs, runJobs_eq_error] at h
    obtain ⟨before, job, after, m, split, completed, failed⟩ := h
    refine ⟨0, job, m, .level split completed, ?_⟩
    rcases job.unknown_or_performs m with ⟨directive, rfl⟩ | ⟨action, entered, performs⟩
    · exact .notice failed
    · rw [performs.run_eq] at failed
      cases failed
      exact .tooDeep performs
  | succ depth ih =>
    rw [dispatchAt, dispatch_eq_runJobs, runJobs_eq_error] at h
    obtain ⟨before, job, after, m, split, completed, failed⟩ := h
    rcases job.unknown_or_performs m with ⟨directive, rfl⟩ | ⟨action, entered, performs⟩
    · exact ⟨_, _, m, .level split completed, .notice failed⟩
    · rw [performs.run_eq] at failed
      -- either the action itself fails, or a dispatch it asks for does, one level further down
      rcases Procedure.raises_or_dispatches failed with raised | ⟨further, asked, asks, failed⟩
      · exact ⟨_, job, m, .level split completed, .action performs raised⟩
      · obtain ⟨inner, deeper, begun, starts, raises⟩ := ih failed
        exact ⟨inner, deeper, begun, .nested split completed performs asks starts, raises⟩

/-- **The first failure ends all dispatches at once.** Whatever the registry, its actions and the
session, and to whatever depth dispatches are nested: the outermost dispatch fails exactly when some
job that is begun at some depth fails of its own accord, with the failure of this job and in the
session in which it arose, so that no job was begun and nothing was written after it. Any job that
fails, because it raised the failure or because it passed it on, fails just as the outermost
dispatch does. And the outermost dispatch succeeds exactly when all jobs that are begun do. -/
theorem first_failure_ends_all_dispatches (registry : Registry α) (procedure : α → Procedure Unit)
    (depth : Nat) (directives : List String) (s : Session) :
    (∀ failure e, (registry.dispatchAt procedure depth directives).run s = .error failure e ↔
      ∃ inner job m, Starts registry procedure depth directives s inner job m ∧
        job.Raises registry procedure inner m failure e) ∧
    (∀ inner job m failure e, Starts registry procedure depth directives s inner job m →
      (job.run (registry.performAt procedure inner)).run m = .error failure e →
        (registry.dispatchAt procedure depth directives).run s = .error failure e) ∧
    ((∃ s', (registry.dispatchAt procedure depth directives).run s = .ok () s') ↔
      ∀ inner job m, Starts registry procedure depth directives s inner job m →
        ∃ m', (job.run (registry.performAt procedure inner)).run m = .ok () m') := by
  refine ⟨fun failure e => ⟨exists_raises_of_dispatchAt_eq_error, ?_⟩,
    fun inner job m failure e starts failed => starts.dispatchAt_eq_error failed, ?_, ?_⟩
  · rintro ⟨inner, job, m, starts, raises⟩
    exact starts.dispatchAt_eq_error raises.run_eq
  · rintro ⟨s', succeeded⟩ inner job m starts
    cases ended : (job.run (registry.performAt procedure inner)).run m with
    | ok _ m' => exact ⟨m', rfl⟩
    | error failure e =>
      have failed := starts.dispatchAt_eq_error ended
      rw [succeeded] at failed
      cases failed
  · intro succeed
    cases ended : (registry.dispatchAt procedure depth directives).run s with
    | ok _ s' => exact ⟨s', rfl⟩
    | error failure e =>
      obtain ⟨inner, job, m, starts, raises⟩ := exists_raises_of_dispatchAt_eq_error ended
      obtain ⟨m', succeeded⟩ := succeed inner job m starts
      rw [raises.run_eq] at succeeded
      cases succeeded

/-- A recipe that stops the run two dispatches down: neither the directive behind it nor the one
behind the outer command is begun. -/
theorem first_failure_ends_all_dispatches_exit :
    let outer : Action := .recipe ⟨"outer", none, ["stop", "later"], none⟩
    let stop : Action := .recipe ⟨"stop", some "bye", [], some .exit⟩
    let later : Action := .recipe ⟨"later", none, [], none⟩
    let registry : Registry Action := ⟨[⟨"outer", "", some outer, []⟩,
      ⟨"stop", "", none, [stop, later]⟩, ⟨"later", "", some later, []⟩]⟩
    let procedure := Action.procedure (fun _ _ => .error .notFound) default registry
    ∃ e, (registry.dispatchAt procedure 2 ["outer", "later"]).run default = .error .exit e ∧
      e.begun = ["outer", "stop"] := by
  intro outer stop later registry procedure
  obtain ⟨_, ends, _⟩ := first_failure_ends_all_dispatches registry procedure 2 ["outer", "later"]
    default
  have first : registry.jobs ["outer", "later"] =
      [] ++ .own "outer" outer :: [.own "later" later] := rfl
  have second : registry.jobs ["stop", "later"] =
      [] ++ .prerequisite stop :: [.prerequisite later, .own "later" later] := rfl
  have asks (s : Session) : (procedure outer).Dispatches (registry.dispatchAt procedure 1) s
      ["stop", "later"] (s.record (.began "outer")) :=
    .inr ⟨(), _, rfl, .inr ⟨(), _, rfl, .inl ⟨rfl, rfl⟩⟩⟩
  have starts (s : Session) :=
    Starts.nested (s := s) first .done (.own ..) (asks _) (.level second .done)
  exact ⟨_, ends 1 _ _ .exit _ (starts _) rfl, rfl⟩

end Registry

end BuildRunner
