import BuildRunner.Proofs.Action.Closed
import BuildRunner.Proofs.Invocation
import BuildRunner.Proofs.World.Frame

/-!
# What an action does to the files

Programs may change files, and if none of them does, an action of the build can do so in two ways
only: cleaning removes what the paths of the artifacts name, and preparing the documentation makes
directories on the paths where pages are put. All other actions leave the world as it is, whether
they fail or not.

Paths are taken from the root, and the root from the working directory, which no action changes.
-/

namespace BuildRunner

/-- Programs that leave the files as they find them. -/
def Programs.Still (programs : Programs) : Prop :=
  ∀ launch w outcome, programs launch w = .ok outcome → outcome.files = w.files

open Run

theorem Invocation.keepsWorld_start {programs : Programs} (still : programs.Still)
    (directory : Path) (invocation : Invocation) :
    KeepsWorld (invocation.start programs directory) := by
  intro s
  rcases run_start programs directory invocation s with
    ⟨launch, outcome, starts, ran⟩ | ⟨fault, _, failed⟩
  · rw [final_of_ok ran, Session.after_world, World.withFiles, still _ _ _ starts.ran]
  · rw [final_of_error failed]

namespace Context

variable (cx : Context)

/-! ## Paths from the root -/

/-- The absolute path of the root in a world. -/
def rootPath (w : World) : Path :=
  (World.pathOf w.workingDirectory).join cx.root

theorem rootPath_congr {w w' : World} (h : w.workingDirectory = w'.workingDirectory) :
    cx.rootPath w = cx.rootPath w' := by
  rw [rootPath, rootPath, h]

/-- The entries of a directory that bear the names of artifacts. -/
def artifactsAt (here : Location) : List Location :=
  artifacts.map fun name : String => here ++ [(name : RawText)]

theorem ne_nil_of_mem_artifactsAt {here : Location} : ∀ spot ∈ artifactsAt here, spot ≠ [] := by
  intro spot mem
  obtain ⟨artifact, _, rfl⟩ := List.mem_map.mp mem
  exact List.concat_ne_nil _ _

theorem isName_of_mem_artifacts : ∀ name ∈ artifacts, IsName (name : RawText) := by
  decide

/-- What cleaning removes. -/
def artifactPaths (w : World) : List Path :=
  artifacts.map fun name : String => (cx.rootPath w).join ⟨name⟩

/-- The directories that preparing the documentation makes, and those above them. -/
def outputPaths (w : World) : List Path :=
  [cx.docs.manOut, cx.docs.webManOut].flatMap fun name : String =>
    ((cx.rootPath w).join ⟨name⟩).ancestors

/-- The root is found as long as the working directory exists. -/
theorem run_base (s : Session) :
    cx.base.run s =
      if s.world.files.isDirectoryAt s.world.workingDirectory then .ok (cx.rootPath s.world) s
      else .error (.shell (.noWorkingDirectory .notFound)) s := by
  rw [base, bind_of_ok (run_world s), World.workingPath]
  split <;> rfl

theorem final_base_bind (f : Path → Run Unit) (s : Session) :
    (cx.base >>= f).final s = (f (cx.rootPath s.world)).final s ∨ (cx.base >>= f).final s = s := by
  rw [base, bind_assoc, final_world_bind, bind_assoc, final_lift_bind, World.workingPath]
  by_cases stands : s.world.files.isDirectoryAt s.world.workingDirectory = true
  · rw [if_pos stands]
    exact .inl rfl
  · rw [if_neg stands]
    exact .inr rfl

/-! ## Cleaning -/

theorem shrinks_removePath (path : Path) (s : Session) :
    World.Shrinks [path] s.world ((removePath path).final s).world := by
  rw [removePath, final_world_bind, final_lift_bind]
  cases removed : s.world.remove path with
  | error fault => exact .refl _ _
  | ok w => exact World.remove_shrinks removed

theorem shrinks_removeAll (base : Path) (names : List String) (s : Session) :
    World.Shrinks (names.map fun name : String => base.join ⟨name⟩) s.world
      ((removeAll base names).final s).world := by
  induction names generalizing s with
  | nil => exact .refl _ _
  | cons name names ih =>
    rw [removeAll, final_log_bind, List.map_cons]
    refine related_bind World.Shrinks.trans ?_ fun _ mid => ?_
    · exact (shrinks_removePath _ _).mono (List.cons_subset_cons _ (List.nil_subset _))
    · exact (ih mid).mono (List.subset_cons_self _ _)

/-- Cleaning takes away what the paths of the artifacts name, and nothing else. -/
theorem shrinks_clean (s : Session) :
    World.Shrinks (cx.artifactPaths s.world) s.world (cx.clean.final s).world := by
  rcases cx.final_base_bind (fun base => removeAll base artifacts) s with found | gone
  · rw [clean, found]
    exact shrinks_removeAll _ artifacts s
  · rw [clean, gone]
    exact .refl _ _

/-! ## Preparing the documentation -/

theorem final_makeDirectory (path : Path) (s : Session) :
    ((makeDirectory path).final s).world = (s.world.makeDirectories path).1 := by
  rw [makeDirectory, final_world_bind]
  rcases s.world.makeDirectories path with ⟨w, _ | fault⟩ <;> rfl

theorem extends_makeDirectory (path : Path) (s : Session) :
    World.Extends path.ancestors s.world ((makeDirectory path).final s).world := by
  rw [final_makeDirectory]
  exact World.makeFirst_extends s.world path.ancestors

theorem extends_makeAll (base : Path) (names : List String) (s : Session) :
    World.Extends (names.flatMap fun name : String => (base.join ⟨name⟩).ancestors) s.world
      ((makeAll base names).final s).world := by
  induction names generalizing s with
  | nil => exact .refl _ _
  | cons name names ih =>
    rw [makeAll, List.flatMap_cons]
    refine related_bind World.Extends.trans ?_ fun _ mid => ?_
    · exact (extends_makeDirectory _ s).mono (List.subset_append_left _ _)
    · rw [final_log_bind]
      exact (ih (mid.record _)).mono (List.subset_append_right _ _)

/-- Preparing the documentation adds directories on the paths where pages are put, and nothing
else. -/
theorem extends_prepareDocs (s : Session) :
    World.Extends (cx.outputPaths s.world) s.world (cx.prepareDocs.final s).world := by
  rw [prepareDocs, needAsciidoctor]
  cases cx.asciidoctor with
  | none => exact .refl _ _
  | some program =>
    rw [pure_bind]
    rcases cx.final_base_bind
      (fun base => makeAll base [cx.docs.manOut, cx.docs.webManOut]) s with found | gone
    · rw [found]
      exact extends_makeAll _ _ s
    · rw [gone]
      exact .refl _ _

end Context

/-! ## All other actions of the build -/

/-- Of the actions of the build, only cleaning and preparing the documentation change the world. -/
theorem Action.keepsWorld_or {programs : Programs} (still : programs.Still) (cx : Context)
    (registry : Registry Action) {depth : Nat} (deep : depth ≠ 0) {action : Action}
    (builtin : ∀ content, action ≠ .recipe content) :
    KeepsWorld (action.perform programs cx registry depth) ∨ action = .clean ∨ action = .docs := by
  obtain ⟨depth, rfl⟩ := Nat.exists_eq_succ_of_ne_zero deep
  have start := Invocation.keepsWorld_start still cx.root
  cases action with
  | tests summary => exact .inl (Invocation.closed_run closed_keepsWorld (start _))
  | clean => exact .inr (.inl rfl)
  | docs => exact .inr (.inr rfl)
  | help => exact .inl ((keepsWorld_write _).bind fun _ => keepsWorld_throw _)
  | build => exact .inl (Invocation.closed_run closed_keepsWorld (start _))
  | site =>
    exact .inl ((cx.closed_sitePlan closed_keepsWorld).bind fun _ =>
      Invocation.closed_runAll closed_keepsWorld start _)
  | manPages =>
    exact .inl ((cx.closed_manPagesPlan closed_keepsWorld).bind fun _ =>
      Invocation.closed_runAll closed_keepsWorld start _)
  | recipe content => exact absurd rfl (builtin content)

end BuildRunner
