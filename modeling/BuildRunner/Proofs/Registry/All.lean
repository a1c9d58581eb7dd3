import BuildRunner.Proofs.Action.Docs
import BuildRunner.Proofs.Action.Related
import BuildRunner.Proofs.Registry.Frame

/-!
# Everything at once, or one after the other

The command `all` performs five actions in turn. The commands of these actions dispatched one after
the other do the same, though two of them prepare the documentation again: it was prepared before,
and what is performed in between changes nothing if programs leave the files alone. Wherever one of
the two dispatches fails, the other one fails in the same way.

Both are compared as runs that are alike, so what is announced does not matter. A list of jobs is
like its actions in turn, and there an action that only logs can be left out.
-/

namespace BuildRunner

open Run

/-! ## Actions do not look at the log -/

theorem Invocation.blind_start (programs : Programs) (directory : Path)
    (invocation : Invocation) : Blind (invocation.start programs directory) :=
  invocation.related_start Session.Alike.likeness programs directory

theorem blind_makeDirectory (path : Path) : Blind (makeDirectory path) :=
  related_makeDirectory Session.Alike.likeness path

/-! ## Preparing the documentation again -/

namespace Context

variable {cx : Context} {x rest rest' : Run Unit}

theorem blind_prepareDocs (cx : Context) : Blind cx.prepareDocs :=
  cx.closed_prepareDocs closed_blind blind_makeDirectory

/-- The documentation need not be prepared again after a run that leaves the world alone. -/
theorem prepareDocs_again (keeps : KeepsWorld x) (blind : Blind x) (same : Alike rest rest') :
    Alike (cx.prepareDocs >>= fun _ => x >>= fun _ => cx.prepareDocs >>= fun _ => rest)
      (cx.prepareDocs >>= fun _ => x >>= fun _ => rest') := by
  intro s t alike
  obtain ⟨answer, s₁, t₁, first, first', alike₁⟩ := cx.blind_prepareDocs s t alike
  cases answer with
  | error failure =>
    exact ⟨.error failure, s₁, t₁, bind_of_error first, bind_of_error first', alike₁⟩
  | ok _ =>
    rw [bind_of_ok first, bind_of_ok first']
    obtain ⟨answer, s₂, t₂, between, between', alike₂⟩ := blind s₁ t₁ alike₁
    cases answer with
    | error failure =>
      exact ⟨.error failure, s₂, t₂, bind_of_error between, bind_of_error between', alike₂⟩
    | ok _ =>
      rw [bind_of_ok between, bind_of_ok between']
      -- the world is the one in which the documentation was prepared
      have prepared : cx.Prepared s₂.world := by
        have world := keeps s₁
        rw [final_of_ok between] at world
        rw [world]
        exact prepared_of_prepareDocs first
      obtain ⟨s₃, again, logs⟩ := prepared.prepareDocs
      rw [bind_of_ok again]
      exact same s₃ t₂ ((Session.Alike.of_logsOnly logs).trans alike₂)

end Context

namespace Registry

/-! ## Actions in turn -/

section InTurn

variable {α : Type} [Named α] {perform : α → Run Unit}

/-- Performs actions one after the other, none of them announced. -/
def inTurn (perform : α → Run Unit) : List α → Run Unit
  | [] => pure ()
  | action :: actions => perform action >>= fun _ => inTurn perform actions

/-- Jobs are like their actions in turn. -/
theorem alike_runJobs {jobs : List (Job α)} {actions : List α}
    (same : jobs.map Job.action? = actions.map some)
    (blind : ∀ action ∈ actions, Blind (perform action)) :
    Alike (runJobs perform jobs) (inTurn perform actions) := by
  induction jobs generalizing actions with
  | nil =>
    cases List.map_eq_nil_iff.mp same.symm
    exact blind_pure ()
  | cons job jobs ih =>
    obtain ⟨action, actions, rfl, own, others⟩ := List.map_eq_cons_iff.mp same.symm
    obtain ⟨first, later⟩ := List.forall_mem_cons.mp blind
    rw [runJobs, inTurn]
    refine Alike.bind ?_ fun _ => ih others.symm later
    cases job with
    | prerequisite other =>
      cases own
      exact first.log_bind _ _ _
    | own command other =>
      cases own
      exact first.log_bind _ _ _
    | unknown directive => cases own

end InTurn

section Build

variable {registry : Registry Action} {programs : Programs} {cx : Context} {s : Session}

/-- What `all` performs. -/
def allActions : List Action :=
  [.tests true, .docs, .manPages, .build, .site]

/-- What the commands of these actions perform. -/
def partsActions : List Action :=
  [.tests true, .docs, .docs, .manPages, .build, .docs, .site]

theorem blind_perform : ∀ action ∈ allActions,
    Blind (Action.perform programs cx registry nestingLimit action) := by
  have start := Invocation.blind_start programs cx.root
  intro action mem
  simp only [allActions, List.mem_cons, List.not_mem_nil, or_false] at mem
  rcases mem with rfl | rfl | rfl | rfl | rfl
  · rw [Action.perform_eq_of_step nestingLimit_ne_zero rfl]
    exact Invocation.closed_run closed_blind (start _)
  · rw [Action.perform_eq_of_step nestingLimit_ne_zero rfl]
    exact cx.blind_prepareDocs
  · rw [Action.perform_eq_of_step nestingLimit_ne_zero rfl]
    exact (cx.closed_manPagesPlan closed_blind).bind fun _ =>
      Invocation.closed_runAll closed_blind start _
  · rw [Action.perform_eq_of_step nestingLimit_ne_zero rfl]
    exact Invocation.closed_run closed_blind (start _)
  · rw [Action.perform_eq_of_step nestingLimit_ne_zero rfl]
    exact (cx.closed_sitePlan closed_blind).bind fun _ =>
      Invocation.closed_runAll closed_blind start _

theorem alike_partsActions (still : programs.Still) :
    Alike (inTurn (Action.perform programs cx registry nestingLimit) partsActions)
      (inTurn (Action.perform programs cx registry nestingLimit) allActions) := by
  have docs : Action.perform programs cx registry nestingLimit .docs = cx.prepareDocs :=
    Action.perform_eq_of_step nestingLimit_ne_zero rfl
  have keeps (action : Action) (builtin : ∀ content, action ≠ .recipe content)
      (other : ¬(action = .clean ∨ action = .docs)) :
      KeepsWorld (Action.perform programs cx registry nestingLimit action) :=
    (Action.keepsWorld_or still cx registry nestingLimit_ne_zero builtin).resolve_right other
  have blind (action : Action) (mem : action ∈ allActions) :
      Blind (Action.perform programs cx registry nestingLimit action) :=
    blind_perform action mem
  have site : Blind (inTurn (Action.perform programs cx registry nestingLimit) [.site]) :=
    (blind .site (by decide)).bind fun _ => blind_pure ()
  have pages := blind .manPages (by decide)
  have program := blind .build (by decide)
  -- nothing changes between the first two times
  have first := cx.prepareDocs_again (keepsWorld_pure ()) (blind_pure ())
    (pages.bind fun _ => program.bind fun _ => cx.blind_prepareDocs.bind fun _ => site)
  simp only [pure_bind] at first
  -- nor while the manual pages are rendered and the program is built
  have second := cx.prepareDocs_again
    ((keeps .manPages nofun (by decide)).bind fun _ => keeps .build nofun (by decide))
    (pages.bind fun _ => program) site
  simp only [bind_assoc] at second
  simp only [partsActions, allActions, inTurn, docs]
  exact (blind (.tests true) (by decide)).bind fun _ => first.trans second

/-- **`all` is its parts one after the other.** Programs that are started must leave the files
alone; they may end with any status, and each may fail to start. Then to dispatch `all` and to
dispatch the commands of its actions in their order gives the same answer or the same failure, the
same files, the same output, and the same programs started with the same arguments in the same
directory. But for the log, all that happens is the same and happens in the same order. -/
theorem all_eq_parts (programs : Programs) (still : programs.Still) (cx : Context)
    (registry : Registry Action) (built : buildRegistry = .ok registry) (s : Session) :
    ∃ answer u v,
      (registry.run programs cx ["all"]).run s = ended answer u ∧
      (registry.run programs cx ["tests-summary", "docs", "man-pages", "build", "site"]).run s =
        ended answer v ∧
      u.world = v.world ∧ u.output = v.output ∧ u.launches = v.launches ∧ u.printed = v.printed ∧
      u.deeds = v.deeds := by
  cases built
  have all : Alike (Registry.run ⟨buildCommands⟩ programs cx ["all"])
      (inTurn (Action.perform programs cx ⟨buildCommands⟩ nestingLimit) allActions) := by
    rw [run, dispatch_eq_runJobs]
    exact alike_runJobs rfl blind_perform
  have parts : Alike (Registry.run ⟨buildCommands⟩ programs cx
        ["tests-summary", "docs", "man-pages", "build", "site"])
      (inTurn (Action.perform programs cx ⟨buildCommands⟩ nestingLimit) partsActions) := by
    rw [run, dispatch_eq_runJobs]
    have listed : ∀ action ∈ partsActions, action ∈ allActions := by decide
    exact alike_runJobs rfl fun action mem => blind_perform action (listed action mem)
  obtain ⟨answer, u, v, first, second, ends⟩ :=
    (all.trans ((alike_partsActions still).symm.trans parts.symm)) s s (.refl s)
  exact ⟨answer, u, v, first, second, ends.world, ends.output, ends.launches, ends.printed,
    ends.deeds⟩

/-- A project without sources, beside both tools. -/
def bareProject : Session :=
  ⟨⟨.ofList [("p", .directory .empty), ("zig", .file .empty true),
    ("asciidoctor", .file .empty true)], [], ⟨[]⟩⟩, none, []⟩

/-- The context of this project. -/
def bareContext : Context :=
  ⟨⟨"/p"⟩, ⟨"/zig"⟩, some ⟨"/asciidoctor"⟩, .default⟩

/-- Without sources the parts end where `all` does: one program was started, which failed, and the
documentation was prepared before the manual pages were looked for. -/
theorem all_eq_parts_bare :
    let failing : Programs := fun _ w => .ok ⟨.code 1, w.files, "", "failed"⟩
    failing.Still ∧ ∃ registry v, buildRegistry = .ok registry ∧
      (registry.run failing bareContext ["tests-summary", "docs", "man-pages", "build",
        "site"]).final bareProject = v ∧
      v.launches = [⟨⟨"/zig"⟩, ["build", "tests", "--summary", "all"], ⟨"/p"⟩⟩] ∧
      v.world.isDirectory ⟨"/p/man/man1"⟩ = true := by
  intro failing
  have still : failing.Still := by
    rintro launch w outcome ⟨⟩
    rfl
  obtain ⟨answer, u, v, all, parts, world, _, launches, _⟩ :=
    all_eq_parts failing still bareContext _ buildRegistry_eq bareProject
  refine ⟨still, _, v, buildRegistry_eq, final_of_ended parts, ?_, ?_⟩
  · rw [← launches, ← final_of_ended all]
    decide +kernel
  · rw [← world, ← final_of_ended all]
    decide +kernel

end Build

end Registry

end BuildRunner
