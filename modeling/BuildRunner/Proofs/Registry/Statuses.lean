import BuildRunner.Proofs.Action.Related
import BuildRunner.Proofs.Action.Tools
import BuildRunner.Proofs.Session.Alike

/-!
# Programs that end otherwise

How a program ended is reported, and nothing else is done about it. So programs that do the same but
end with other statuses lead to the same dispatch. Only the reports differ.

A program may behave otherwise when it is started again, and so may its status. This is said by
`ChangingPrograms`, whose behaviour may depend on the programs started before. Two of them may then
differ in the statuses of single runs, independently of each other, also where the same program is
started twice in the same world.

How much of an outcome two programs have to agree in, and in which sense sessions are alike then, is
left open first. `Session.Hides` says what goes together: what an outcome does to the file tree is
never left out, what a program writes itself may be, and what is left out is what alike sessions
may differ in.
-/

namespace BuildRunner

open Run

/-! ## Other statuses -/

/-- What an outcome consists of beside the status. -/
def Outcome.effects (outcome : Outcome) : Directory × String × String :=
  (outcome.files, outcome.output, outcome.complaints)

/-- Programs that do the same, but may end with other statuses. -/
def Programs.SameButStatus (programs programs' : Programs) : Prop :=
  ∀ launch w, (programs launch w).map Outcome.effects = (programs' launch w).map Outcome.effects

/-- Programs that do the same, as far as a view of their outcomes shows. -/
def Programs.SameIn {δ : Type} (view : Outcome → δ) (programs programs' : Programs) : Prop :=
  ∀ launch w, (programs launch w).map view = (programs' launch w).map view

/-- A launch fails in the same way with both, or both have an outcome and the view is the same. -/
theorem Programs.SameIn.cases {δ : Type} {view : Outcome → δ} {programs programs' : Programs}
    (same : programs.SameIn view programs') (launch : Launch) (w : World) :
    (∃ fault, programs launch w = .error fault ∧ programs' launch w = .error fault) ∨
      ∃ outcome outcome', programs launch w = .ok outcome ∧ programs' launch w = .ok outcome' ∧
        view outcome = view outcome' := by
  have outcomes := same launch w
  cases first : programs launch w with
  | error fault =>
    rw [first] at outcomes
    cases second : programs' launch w with
    | error fault' =>
      rw [second] at outcomes
      exact .inl ⟨fault, rfl, congrArg _ (Except.error.inj outcomes).symm⟩
    | ok outcome' =>
      rw [second] at outcomes
      cases outcomes
  | ok outcome =>
    rw [first] at outcomes
    cases second : programs' launch w with
    | error fault' =>
      rw [second] at outcomes
      cases outcomes
    | ok outcome' =>
      rw [second] at outcomes
      exact .inr ⟨outcome, outcome', rfl, rfl, Except.ok.inj outcomes⟩

/-- Programs whose behaviour may depend on the programs started before. -/
abbrev ChangingPrograms := List Launch → Programs

namespace Session

/-- The session after a program has written what it writes itself. -/
def afterWriting (s : Session) (outcome : Outcome) : Session :=
  (s.record (.printed outcome.output)).record (.complained outcome.complaints)

/-- Sessions that are alike may differ in reports on how programs ended, and in what a view of
outcomes does not show. What an outcome does to the file tree is shown. -/
structure Hides {δ : Type} (view : Outcome → δ) (R : Session → Session → Prop) : Prop where
  report (s : Session) (text : String) : R (s.record (.logged ⟨.warn, .process, text⟩)) s
  files {outcome outcome' : Outcome} : view outcome = view outcome' →
    outcome.files = outcome'.files
  writing {outcome outcome' : Outcome} {s t : Session} : view outcome = view outcome' → R s t →
    R (s.afterWriting outcome) (t.afterWriting outcome')

/-- If only the status is not shown, alike sessions need not differ in more than reports. -/
theorem Likeness.hides_status {R : Session → Session → Prop} (like : Likeness R)
    (report : ∀ (s : Session) (text : String), R (s.record (.logged ⟨.warn, .process, text⟩)) s) :
    Hides Outcome.effects R where
  report := report
  files same := congrArg Prod.fst same
  writing {outcome outcome' s t} same alike := by
    obtain ⟨status, files, output, complaints⟩ := outcome
    obtain ⟨status', files', output', complaints'⟩ := outcome'
    cases same
    exact like.record _ (like.record _ alike)

end Session

variable {δ : Type} {view : Outcome → δ} {R : Session → Session → Prop}
  {programs programs' : Programs} {cx : Context} {registry : Registry Action}

namespace Invocation

/-- Runs an invocation with programs as they behave by then. -/
def runChanging (programs : ChangingPrograms) (directory : Path) (invocation : Invocation) :
    Run Unit := do
  invocation.run (programs (← get).launches) directory

/-- Runs invocations one after the other, with programs as they behave by then. -/
def runAllChanging (programs : ChangingPrograms) (directory : Path) :
    List Invocation → Run Unit
  | [] => pure ()
  | invocation :: invocations => do
    invocation.runChanging programs directory
    runAllChanging programs directory invocations

theorem runAllChanging_const (programs : Programs) (directory : Path)
    (invocations : List Invocation) :
    runAllChanging (fun _ => programs) directory invocations =
      runAll programs directory invocations := by
  induction invocations with
  | nil => rfl
  | cons invocation invocations ih =>
    rw [runAllChanging, runAll, ih]
    rfl

section Related

variable (like : Session.Likeness R) (hides : Session.Hides view R)

include like hides

/-- A report on the end of a program can be left out. -/
theorem related_reported (invocation : Invocation) (status : ExitStatus) :
    Related R (unless status.isSuccess do
      Run.log .warn .process (invocation.programName ++ " exited with " ++ status.shown))
      (pure ()) := by
  split
  · exact related_pure ()
  · have report := (related_pure ()).note_bind like (fun s => hides.report s
      (invocation.programName ++ " exited with " ++ status.shown))
    rwa [bind_pure_unit] at report

/-- An invocation goes the same way with programs that do the same in this view. -/
theorem related_run (same : programs.SameIn view programs') (directory : Path)
    (invocation : Invocation) :
    Related R (invocation.run programs directory) (invocation.run programs' directory) := by
  rw [run, run, start, start]
  simp only [bind_assoc]
  refine (related_note like _).bind fun _ => (related_world like).bind fun w =>
    Related.bind ((closed_related like).of_lift _ _) fun program =>
      Related.bind ((closed_related like).of_lift _ _) fun _ => ?_
  rcases same.cases ⟨program, invocation.arguments, directory⟩ w with
    ⟨fault, first, second⟩ | ⟨outcome, outcome', first, second, shown⟩
  · rw [first, second]
    exact related_throw _
  · rw [first, second]
    have reported := (invocation.related_reported like hides outcome.status).trans like
      ((invocation.related_reported like hides outcome'.status).symm like)
    simp only [lift, pure_bind, hides.files shown]
    refine (related_note like _).bind fun _ => (related_setWorld like _).bind fun _ => ?_
    intro s t alike
    exact reported _ _ (hides.writing shown alike)

/-- So it does where the behaviour of programs changes. -/
theorem related_runAllChanging {programs programs' : ChangingPrograms}
    (same : ∀ started, (programs started).SameIn view (programs' started)) (directory : Path)
    (invocations : List Invocation) :
    Related R (runAllChanging programs directory invocations)
      (runAllChanging programs' directory invocations) := by
  induction invocations with
  | nil => exact related_pure ()
  | cons invocation invocations ih =>
    refine Related.bind (Related.get_bind fun s t alike => ?_) fun _ => ih
    -- the same programs were started before
    rw [like.launches alike]
    exact related_run like hides (same _) directory invocation

end Related

end Invocation

/-! ## Dispatches -/

namespace Registry

variable {α : Type} [Named α] {perform perform' : α → Run Unit}
  {procedure procedure' : α → Procedure Unit}

section Related

variable (like : Session.Likeness R)

include like

/-- A dispatch goes the same way if its actions do. -/
theorem related_dispatch (actions : ∀ action, Related R (perform action) (perform' action))
    (registry : Registry α) (directives : List String) :
    Related R (registry.dispatch perform directives) (registry.dispatch perform' directives) := by
  rw [dispatch_eq_runJobs, dispatch_eq_runJobs]
  induction registry.jobs directives with
  | nil => exact related_pure ()
  | cons job jobs ih =>
    refine Related.bind ?_ fun _ => ih
    cases job with
    | prerequisite action => exact (related_note like _).bind fun _ => actions action
    | own command action => exact (related_note like _).bind fun _ => actions action
    | unknown directive => exact related_write like _

/-- An action goes the same way, however deeply it dispatches, if its procedure does wherever
dispatches do. -/
theorem related_performAt (registry : Registry α)
    (procedures : ∀ action dispatch dispatch',
      (∀ directives, Related R (dispatch directives) (dispatch' directives)) →
        Related R ((procedure action).run dispatch) ((procedure' action).run dispatch'))
    (depth : Nat) (action : α) :
    Related R (registry.performAt procedure depth action)
      (registry.performAt procedure' depth action) := by
  induction depth generalizing action with
  | zero => exact related_throw _
  | succ depth ih => exact procedures action _ _ (related_dispatch like ih registry)

end Related

end Registry

/-! ## Actions -/

/-- A recipe goes the same way if its dispatches do. -/
theorem Recipe.related_procedure (like : Session.Likeness R) (recipe : Recipe)
    {dispatch dispatch' : List String → Run Unit}
    (nested : ∀ directives, Related R (dispatch directives) (dispatch' directives)) :
    Related R (recipe.procedure.run dispatch) (recipe.procedure.run dispatch') := by
  obtain ⟨name, text, directives, failure⟩ := recipe
  simp only [procedure, Procedure.run]
  refine (related_note like _).bind fun _ => Related.bind ?opening fun _ =>
    (nested directives).bind fun _ => ?ending
  case opening =>
    cases text with
    | none => exact related_pure ()
    | some text => exact related_write like text
  case ending =>
    cases failure with
    | none => exact related_pure ()
    | some failure => exact related_throw _

namespace Action

/-- The procedure of an action with programs as they behave by then. An action that starts no tool
has the same procedure whatever programs do. -/
def procedureChanging (programs : ChangingPrograms) (cx : Context) (registry : Registry Action)
    (action : Action) : Procedure Unit :=
  match action.tool? with
  | some _ => .step do Invocation.runAllChanging programs cx.root (← action.plan cx)
  | none => action.procedure (programs []) cx registry

/-- Programs that do not change are started as they are. -/
theorem procedureChanging_const (programs : Programs) (cx : Context) (registry : Registry Action) :
    procedureChanging (fun _ => programs) cx registry = Action.procedure programs cx registry := by
  funext action
  cases own : action.tool? with
  | none => rw [procedureChanging, own]
  | some tool =>
    have planned : action.perform programs cx registry 1 =
        (do Invocation.runAll programs cx.root (← action.plan cx)) :=
      perform_eq_plan Nat.one_ne_zero own
    have step : action.procedure programs cx registry =
        .step (action.perform programs cx registry 1) := by
      cases action <;> first | rfl | cases own
    rw [procedureChanging, own, step, planned]
    simp only [Invocation.runAllChanging_const]

/-- An action goes the same way with such programs, if its dispatches do. -/
theorem related_procedureChanging (like : Session.Likeness R) (hides : Session.Hides view R)
    {programs programs' : ChangingPrograms}
    (same : ∀ started, (programs started).SameIn view (programs' started)) (cx : Context)
    (registry : Registry Action) (action : Action) (dispatch dispatch' : List String → Run Unit)
    (nested : ∀ directives, Related R (dispatch directives) (dispatch' directives)) :
    Related R ((action.procedureChanging programs cx registry).run dispatch)
      ((action.procedureChanging programs' cx registry).run dispatch') := by
  cases own : action.tool? with
  | some tool =>
    rw [procedureChanging, procedureChanging, own]
    exact Related.bind (action.closed_plan (closed_related like) cx) fun plan =>
      Invocation.related_runAllChanging like hides same _ plan
  | none =>
    rw [procedureChanging, procedureChanging, own]
    cases action with
    | clean => exact cx.closed_clean (closed_related like) (related_removePath like)
    | docs => exact cx.closed_prepareDocs (closed_related like) (related_makeDirectory like)
    | help => exact (related_write like _).bind fun _ => related_throw _
    | recipe content => exact content.related_procedure like nested
    | tests summary => cases own
    | build => cases own
    | site => cases own
    | manPages => cases own

end Action

/-! ## Dispatches of actions -/

namespace Registry

/-- Dispatches directives on a registry of actions, with programs that may change. -/
def runChanging (registry : Registry Action) (programs : ChangingPrograms) (cx : Context)
    (directives : List String) : Run Unit :=
  registry.dispatchAt (Action.procedureChanging programs cx registry) nestingLimit directives

/-- With programs that do not change this is the dispatch of the build. -/
theorem runChanging_const (registry : Registry Action) (programs : Programs) (cx : Context)
    (directives : List String) :
    registry.runChanging (fun _ => programs) cx directives =
      registry.run programs cx directives := by
  rw [runChanging, Action.procedureChanging_const, run_eq_dispatchAt]

/-- A dispatch goes the same way with programs that do the same in a view, if sessions may differ in
what it does not show. -/
theorem related_runChanging (like : Session.Likeness R) (hides : Session.Hides view R)
    {programs programs' : ChangingPrograms}
    (same : ∀ started, (programs started).SameIn view (programs' started)) (cx : Context)
    (registry : Registry Action) (directives : List String) :
    Related R (registry.runChanging programs cx directives)
      (registry.runChanging programs' cx directives) :=
  related_dispatch like (related_performAt like registry
    (Action.related_procedureChanging like hides same cx registry) _) registry directives

end Registry

/-! ## What may differ -/

namespace Event

/-- A report that a program ended without success. -/
def isReport : Event → Bool
  | .logged record => record.level = .warn && record.part = .process
  | _ => false

/-- Such a report, or what a program wrote itself. -/
def isOfProgram : Event → Bool
  | .printed _ => true
  | .complained _ => true
  | event => event.isReport

end Event

namespace Session

namespace SameBut

/-- With other statuses, the reports may differ. -/
theorem hides_status : Hides Outcome.effects (SameBut Event.isReport) :=
  (likeness fun _ => rfl).hides_status fun s _ => record rfl s

/-- If only what programs do to the file tree is shown, what they write may differ as well. -/
theorem hides_writing : Hides Outcome.files (SameBut Event.isOfProgram) where
  report s _ := record rfl s
  files same := same
  writing {outcome outcome' s t} _ alike := by
    have like : Likeness (SameBut Event.isOfProgram) := likeness fun _ => rfl
    have written (outcome : Outcome) (s : Session) :
        SameBut Event.isOfProgram (s.afterWriting outcome) s :=
      like.trans (record rfl _) (record rfl s)
    exact like.trans (written outcome s) (like.trans alike (like.symm (written outcome' t)))

/-- What programs write themselves is not what the build writes. -/
theorem output {s t : Session} (h : SameBut Event.isOfProgram s t) : s.output = t.output := by
  refine Event.flatMap_eq_of_filter (fun event hide => ?_) h.rest
  cases event with
  | wrote bytes => cases hide
  | _ => rfl

end SameBut

end Session

/-! ## What statuses decide -/

namespace Registry

/-- **Statuses decide nothing.** Take programs whose behaviour may depend on those started before,
and others that can be started whenever these can and do the same to the file tree each time, but
end with any other statuses. Whatever directives are dispatched, on the registry of the build or any
other one, under any context and in any session: the two dispatches succeed or fail with the same
failure, leave the same world, write the same output, and start the same programs with the same
arguments in the same order. All that happens is the same and happens in the same order, but for
what programs write themselves and for reports that one ended without success; if programs write the
same, but for these reports. Programs that do not change are a case of this. -/
theorem statuses_decide_nothing {programs programs' : ChangingPrograms}
    (same : ∀ started, (programs started).SameIn Outcome.files (programs' started)) (cx : Context)
    (registry : Registry Action) (directives : List String) (s : Session) :
    (∃ answer u v,
      (registry.runChanging programs cx directives).run s = ended answer u ∧
      (registry.runChanging programs' cx directives).run s = ended answer v ∧
      u.world = v.world ∧ u.output = v.output ∧ u.launches = v.launches ∧ u.room = v.room ∧
      u.without Event.isOfProgram = v.without Event.isOfProgram ∧
      ((∀ started, (programs started).SameButStatus (programs' started)) →
        u.without Event.isReport = v.without Event.isReport)) ∧
    ∀ fixed : Programs, registry.runChanging (fun _ => fixed) cx directives =
      registry.run fixed cx directives := by
  refine ⟨?_, fun fixed => registry.runChanging_const fixed cx directives⟩
  have like : Session.Likeness (Session.SameBut Event.isOfProgram) :=
    Session.SameBut.likeness fun _ => rfl
  obtain ⟨answer, u, v, first, second, ends⟩ :=
    registry.related_runChanging like Session.SameBut.hides_writing same cx directives s s
      (like.refl s)
  refine ⟨answer, u, v, first, second, ends.world, ends.output, like.launches ends, ends.room,
    ends.rest, fun alike => ?_⟩
  -- in a narrower sense the two go the same way as well, and they are the same two runs
  have narrow : Session.Likeness (Session.SameBut Event.isReport) :=
    Session.SameBut.likeness fun _ => rfl
  obtain ⟨_, _, _, first', second', ends'⟩ :=
    registry.related_runChanging narrow Session.SameBut.hides_status alike cx directives s s
      (narrow.refl s)
  obtain ⟨rfl, rfl⟩ := ended_inj (first.symm.trans first')
  obtain ⟨_, rfl⟩ := ended_inj (second.symm.trans second')
  exact ends'.rest

/-- The same program is started twice in the same world. Once it succeeds both times, and once it is
killed the first time only: this is reported, and goes no further. -/
theorem statuses_decide_nothing_twice :
    let fine : ChangingPrograms := fun _ _ w => .ok ⟨.code 0, w.files, "", ""⟩
    let killed : ChangingPrograms := fun started _ w =>
      .ok ⟨if started = [] then .signal 9 else .code 0, w.files, "", ""⟩
    let cx : Context := ⟨⟨"/p"⟩, ⟨"/zig"⟩, none, .default⟩
    (∀ started, (fine started).SameIn Outcome.files (killed started)) ∧
    (∀ started, (fine started).SameButStatus (killed started)) ∧ ∃ registry v,
      buildRegistry = .ok registry ∧
      (registry.runChanging killed cx ["build", "build"]).run onlyZig = .ok () v ∧
      v.launches.map (·.arguments) =
        [["build", "--summary", "all"], ["build", "--summary", "all"]] ∧
      (v.log.map (·.text)).count "zig exited with signal: 9 (SIGKILL)" = 1 := by
  intro fine killed cx
  have files : ∀ started, (fine started).SameIn Outcome.files (killed started) := fun _ _ _ => rfl
  have effects : ∀ started, (fine started).SameButStatus (killed started) := fun _ _ _ => rfl
  obtain ⟨⟨answer, u, v, first, second, _, _, launches, _⟩, _⟩ :=
    statuses_decide_nothing files cx ⟨buildCommands⟩ ["build", "build"] onlyZig
  let run (programs : ChangingPrograms) :=
    (Registry.mk buildCommands).runChanging programs cx ["build", "build"]
  have succeeds : (run fine).succeeds onlyZig = true := by decide +kernel
  have started : ((run fine).final onlyZig).launches.map (·.arguments) =
      [["build", "--summary", "all"], ["build", "--summary", "all"]] := by decide +kernel
  have logged : (((run killed).final onlyZig).log.map (·.text)).count
      "zig exited with signal: 9 (SIGKILL)" = 1 := by decide +kernel
  obtain ⟨_, done⟩ := run_eq_ok_of_succeeds succeeds
  obtain ⟨rfl, rfl⟩ : answer = .ok () ∧ u = (run fine).final onlyZig :=
    ended_inj (first.symm.trans done)
  refine ⟨files, effects, _, v, buildRegistry_eq, second, ?_, ?_⟩
  · rw [← launches, started]
  · rw [← final_of_ended second]
    exact logged

end Registry

end BuildRunner
