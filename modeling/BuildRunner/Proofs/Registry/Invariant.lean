import BuildRunner.Proofs.Registry.Frame
import BuildRunner.Proofs.World.WellFormed

/-!
# What holds of the world throughout a build

All that a build does to the world is starting programs, removing paths and making directories. What
these three keep, every action keeps, and so does every dispatch on the registry of the build,
whether it fails or not. In particular the file tree stays well formed if no program spoils it.
-/

namespace BuildRunner

open Run

/-- What started programs, removing and making directories keep of a world. -/
structure Programs.Invariant (programs : Programs) (P : World → Prop) : Prop where
  start {w : World} {launch : Launch} {outcome : Outcome} :
    programs launch w = .ok outcome → P w → P (w.withFiles outcome.files)
  remove {w w' : World} {p : Path} : w.remove p = .ok w' → P w → P w'
  make (w : World) (p : Path) : P w → P (w.makeDirectories p).1

namespace Programs.Invariant

variable {programs : Programs} {P : World → Prop} {cx : Context} {registry : Registry Action}
  {directives : List String} {s m : Session} {action : Action}

/-- Each action of the build keeps it. -/
theorem ensures_perform (kept : programs.Invariant P) {depth : Nat} (deep : depth ≠ 0)
    (builtin : ∀ content, action ≠ .recipe content) :
    Ensures (fun s s' => P s.world → P s'.world) (action.perform programs cx registry depth) := by
  have guarantee := Guarantee.of_world P
  apply Action.closed_perform guarantee.closed deep builtin
  · intro invocation
    exact Invocation.ensures_start guarantee fun s launch outcome starts held =>
      kept.start starts.ran held
  · intro path s held
    rw [removePath, final_world_bind, final_lift_bind]
    cases removed : s.world.remove path with
    | error fault => exact held
    | ok w => exact kept.remove removed held
  · intro path s held
    rw [Context.final_makeDirectory]
    exact kept.make s.world path held
  · intro text
    exact (keepsWorld_write text).ensures

/-- So does each job of a dispatch. -/
theorem ensures_job (kept : programs.Invariant P) (built : buildRegistry = .ok registry) :
    ∀ job ∈ registry.jobs directives, Ensures (fun s s' => P s.world → P s'.world)
      (job.run (Action.perform programs cx registry nestingLimit)) := by
  intro job mem
  apply job.ensures (Guarantee.of_world P)
  · intro directive
    exact (keepsWorld_write _).ensures
  · intro action performs
    have builtin := Registry.builtin_of_mem_jobs built mem performs
    exact kept.ensures_perform nestingLimit_ne_zero builtin

/-- What holds when a dispatch of the build starts, holds whenever it comes to perform an action. -/
theorem of_builds (kept : programs.Invariant P) (built : buildRegistry = .ok registry)
    (builds : Registry.Builds registry programs cx directives s action m) (start : P s.world) :
    P m.world := by
  obtain ⟨before, job, after, mid, split, completed, performs⟩ := builds
  have held : P mid.world := by
    refine completed.related (Guarantee.of_world P) (fun other earlier => ?_) start
    have mem : other ∈ registry.jobs directives := by
      rw [split]
      exact List.mem_append_left _ earlier
    exact kept.ensures_job built other mem
  cases performs <;> exact held

end Programs.Invariant

/-! ## Well-formed trees -/

/-- Programs that leave well-formed trees, as all operations of a file system do. -/
def Programs.KeepWellFormed (programs : Programs) : Prop :=
  ∀ launch w outcome, programs launch w = .ok outcome → w.files.WellFormed →
    outcome.files.WellFormed

theorem Programs.KeepWellFormed.invariant {programs : Programs} (sound : programs.KeepWellFormed) :
    programs.Invariant fun w => w.files.WellFormed where
  start ran wf := sound _ _ _ ran wf
  remove removed wf := World.remove_wellFormed wf removed
  make _ p wf := World.makeDirectories_wellFormed wf p

end BuildRunner
