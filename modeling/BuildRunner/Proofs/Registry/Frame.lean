import BuildRunner.Action.Table
import BuildRunner.Proofs.Action.Frame
import BuildRunner.Proofs.Registry.Jobs
import BuildRunner.Proofs.World.Paths

/-!
# What the build changes

Whatever is dispatched on the registry of the build, and whether it fails or not: if programs leave
the files alone, entries are lost only where a path of an artifact leads when the project is
cleaned, and only directories are added, on the paths where pages are put.

A property of the world that a dispatch does not keep is lost by one of its actions first. So it is
enough to look at each action, in a world that still has the property.

The root leads to the same place throughout if it does so without the artifacts; then these are the
only entries that can be lost. Otherwise cleaning may change where the root leads: directories can
be made in place of a link that was removed with an artifact, and the next cleaning then follows the
same root to another place.
-/

namespace BuildRunner.Registry

open Run

variable {s m : Session} {directives : List String} {P : World → Prop}

/-! ## The first change -/

section Change

variable {α : Type} [Named α] {perform : α → Run Unit} {action : α} {registry : Registry α}

/-- A dispatch from `s` comes to perform an action in session `m`. -/
def Comes (registry : Registry α) (perform : α → Run Unit) (directives : List String)
    (s : Session) (action : α) (m : Session) : Prop :=
  ∃ before job after mid, registry.jobs directives = before ++ job :: after ∧
    Completes perform before s mid ∧ job.Performs mid action m

theorem exists_job_of_change {jobs : List (Job α)} (start : P s.world)
    (lost : ¬ P ((runJobs perform jobs).final s).world) :
    ∃ before job after mid, jobs = before ++ job :: after ∧ Completes perform before s mid ∧
      P mid.world ∧ ¬ P ((job.run perform).final mid).world := by
  induction jobs generalizing s with
  | nil => exact absurd start lost
  | cons job jobs ih =>
    by_cases kept : P ((job.run perform).final s).world
    · rw [runJobs, final_bind] at lost
      cases ran : (job.run perform).run s with
      | ok answer mid =>
        rw [ran] at lost
        rw [final_of_ok ran] at kept
        obtain ⟨before, last, after, mid', rfl, completed, change⟩ := ih kept lost
        exact ⟨job :: before, last, after, mid', rfl, .step ran completed, change⟩
      | error failure e =>
        rw [ran] at lost
        rw [final_of_error ran] at kept
        exact absurd kept lost
    · exact ⟨[], job, jobs, s, rfl, .done, start, kept⟩

/-- What a dispatch does not keep, one of its actions is the first not to keep. -/
theorem exists_action_of_change (start : P s.world)
    (lost : ¬ P ((registry.dispatch perform directives).final s).world) :
    ∃ action m, Comes registry perform directives s action m ∧ P m.world ∧
      ¬ P ((perform action).final m).world := by
  rw [dispatch_eq_runJobs] at lost
  obtain ⟨before, job, after, mid, split, completed, own, change⟩ := exists_job_of_change start lost
  rcases job.unknown_or_performs mid with ⟨directive, rfl⟩ | ⟨action, m, performs⟩
  · -- a notice leaves the world alone
    rw [Job.run, keepsWorld_write] at change
    exact absurd own change
  · refine ⟨action, m, ⟨before, job, after, mid, split, completed, performs⟩, ?_, ?_⟩
    · cases performs <;> exact own
    · rwa [final, ← performs.run_eq]

/-- The actions of a dispatch are those of its jobs. -/
theorem Comes.mem (h : Comes registry perform directives s action m) :
    ∃ job ∈ registry.jobs directives, job.action? = some action := by
  obtain ⟨before, job, after, mid, split, completed, performs⟩ := h
  refine ⟨job, ?_, performs.action?_eq⟩
  rw [split]
  exact List.mem_append_right _ List.mem_cons_self

end Change

/-! ## The registry of the build -/

theorem buildRegistry_eq : buildRegistry = .ok ⟨buildCommands⟩ :=
  rfl

/-- The build has no recipes. -/
theorem recipe_notMem_buildCommands : ∀ command ∈ buildCommands, ∀ content,
    Action.recipe content ∉ command.prerequisites ∧ command.action ≠ some (.recipe content) := by
  simp [buildCommands]

/-- No job of the build performs a recipe. -/
theorem builtin_of_mem_jobs {registry : Registry Action} {job : Job Action} {action : Action}
    (built : buildRegistry = .ok registry) (mem : job ∈ registry.jobs directives)
    (performs : job.action? = some action) : ∀ content, action ≠ .recipe content := by
  cases built
  obtain ⟨command, listed, mem⟩ := exists_command_of_mem_jobs mem performs
  rintro content rfl
  obtain ⟨unlisted, notOwn⟩ := recipe_notMem_buildCommands command listed content
  exact (action_of_mem_commandJobs mem performs).elim unlisted notOwn

section Build

variable {registry : Registry Action} {programs : Programs} {cx : Context}

/-- A dispatch of the build comes to perform an action in session `m`. -/
def Builds (registry : Registry Action) (programs : Programs) (cx : Context)
    (directives : List String) (s : Session) (action : Action) (m : Session) : Prop :=
  Comes registry (Action.perform programs cx registry nestingLimit) directives s action m

/-- What a dispatch of the build does not keep is lost by cleaning or by preparing the
documentation. Until then the working directory is the one at the start. -/
theorem exists_clean_or_docs_of_change (still : programs.Still)
    (built : buildRegistry = .ok registry) (start : P s.world)
    (lost : ¬ P ((registry.run programs cx directives).final s).world) :
    ∃ m, m.world.workingDirectory = s.world.workingDirectory ∧ P m.world ∧
      ((Builds registry programs cx directives s .clean m ∧ ¬ P (cx.clean.final m).world) ∨
        (Builds registry programs cx directives s .docs m ∧
          ¬ P (cx.prepareDocs.final m).world)) := by
  obtain ⟨action, m, comes, ⟨directory, own⟩, change⟩ := exists_action_of_change
    (P := fun w => w.workingDirectory = s.world.workingDirectory ∧ P w) ⟨rfl, start⟩
    fun kept => lost kept.2
  obtain ⟨job, mem, performs⟩ := comes.mem
  have builtin := builtin_of_mem_jobs built mem performs
  refine ⟨m, directory, own, ?_⟩
  rcases Action.keepsWorld_or still cx registry nestingLimit_ne_zero builtin with
    keeps | rfl | rfl
  · exact absurd ⟨directory, own⟩ (keeps m ▸ change)
  · have same := (cx.shrinks_clean m).part.workingDirectory
    exact .inl ⟨comes, fun own => change ⟨same.symm.trans directory, own⟩⟩
  · have same := (cx.extends_prepareDocs m).part.workingDirectory
    exact .inr ⟨comes, fun own => change ⟨same.trans directory, own⟩⟩

/-! ## What is lost and what is added -/

variable {location here : Location} {face : Face}

/-- An entry that is lost was at or below a place that the path of an artifact led to when the
project was cleaned. -/
theorem kept_or_cleaned (still : programs.Still) (built : buildRegistry = .ok registry)
    (found : s.world.files.face? location = some face) :
    ((registry.run programs cx directives).final s).world.files.face? location = some face ∨
      ∃ m, Builds registry programs cx directives s .clean m ∧
        ∃ artifact ∈ Context.artifacts, ∃ spot,
          m.world.locate ((cx.rootPath s.world).join ⟨artifact⟩) false = .ok spot ∧
            spot <+: location := by
  by_cases kept : ((registry.run programs cx directives).final s).world.files.face? location =
    some face
  · exact .inl kept
  right
  obtain ⟨m, directory, own, ⟨builds, change⟩ | ⟨builds, change⟩⟩ :=
    exists_clean_or_docs_of_change (P := fun w => w.files.face? location = some face) still built
      found kept
  · rcases (cx.shrinks_clean m).gone location face own with kept | ⟨p, mem, spot, located, inside⟩
    · exact absurd kept change
    · obtain ⟨artifact, listed, rfl⟩ := List.mem_map.mp mem
      rw [cx.rootPath_congr directory] at located
      exact ⟨m, builds, artifact, listed, spot, located, inside⟩
  · exact absurd ((cx.extends_prepareDocs m).part.files location face own) change

/-- An entry that is added is a directory on a path where pages are put, as this path leads when the
documentation was prepared. -/
theorem before_or_made (still : programs.Still) (built : buildRegistry = .ok registry)
    (found : ((registry.run programs cx directives).final s).world.files.face? location =
      some face) :
    s.world.files.face? location = some face ∨
      face = .directory ∧ ∃ m, Builds registry programs cx directives s .docs m ∧
        ∃ out ∈ [cx.docs.manOut, cx.docs.webManOut],
          ∃ above ∈ ((cx.rootPath s.world).join ⟨out⟩).ancestors,
            (cx.prepareDocs.final m).world.locate above true = .ok location := by
  by_cases before : s.world.files.face? location = some face
  · exact .inl before
  right
  obtain ⟨m, directory, own, ⟨builds, change⟩ | ⟨builds, change⟩⟩ :=
    exists_clean_or_docs_of_change (P := fun w => w.files.face? location ≠ some face) still built
      before (not_not_intro found)
  · have after := Classical.not_not.mp change
    exact absurd ((cx.shrinks_clean m).part.files location face after) own
  · have after := Classical.not_not.mp change
    rcases (cx.extends_prepareDocs m).added location face after with kept | ⟨made, p, mem, located⟩
    · exact absurd kept own
    · obtain ⟨out, listed, above⟩ := List.mem_flatMap.mp mem
      rw [cx.rootPath_congr directory] at above
      exact ⟨made, m, builds, out, listed, p, above, located⟩

/-- If the root leads to a directory without needing the artifacts in this directory, nothing else
is lost. -/
theorem kept_outside_artifacts (still : programs.Still) (built : buildRegistry = .ok registry)
    (led : (s.world.withFiles (s.world.files.without (Context.artifactsAt here))).locate
      (cx.rootPath s.world) true = .ok here)
    (found : s.world.files.face? location = some face)
    (outside : ∀ spot ∈ Context.artifactsAt here, ¬ spot <+: location) :
    ((registry.run programs cx directives).final s).world.files.face? location = some face := by
  by_cases kept : ((registry.run programs cx directives).final s).world.files.face? location =
    some face
  · exact kept
  exfalso
  obtain ⟨m, directory, own, ⟨builds, change⟩ | ⟨builds, change⟩⟩ :=
    exists_clean_or_docs_of_change (s := s) (P := fun w => ∀ other face,
      s.world.files.face? other = some face →
        (∀ spot ∈ Context.artifactsAt here, ¬ spot <+: other) → w.files.face? other = some face)
      still built (fun _ _ found _ => found) fun all => kept (all location face found outside)
  · -- the root still leads to the same directory, so what is removed are its artifacts
    have part :
        (s.world.withFiles (s.world.files.without (Context.artifactsAt here))).PartOf m.world := by
      refine ⟨fun other face left => ?_, directory⟩
      obtain ⟨before, apart⟩ :=
        Directory.face?_of_face?_without Context.ne_nil_of_mem_artifactsAt left
      exact own other face before apart
    have root := part.locate_eq_ok led
    refine change fun other face before apart => ?_
    rcases (cx.shrinks_clean m).gone other face (own other face before apart) with
      kept | ⟨p, mem, spot, located, inside⟩
    · exact kept
    · obtain ⟨artifact, listed, rfl⟩ := List.mem_map.mp mem
      rw [cx.rootPath_congr directory] at located
      have entry : spot = here ++ [(artifact : RawText)] :=
        World.locate_join (Context.isName_of_mem_artifacts artifact listed) root located
      exact absurd inside (apart spot (List.mem_map.mpr ⟨artifact, listed, entry.symm⟩))
  · exact change fun other face before apart =>
      (cx.extends_prepareDocs m).part.files other face (own other face before apart)

/-- **The build changes nothing but artifacts and the directories for pages.** Programs that are
started must leave the files alone. Then whatever is dispatched on the registry of the build, in
whatever context, and whether it fails or not:

Every entry that is not at or below an artifact of the root, as the path of the artifact leads when
the project is cleaned, keeps its kind, its content and its target. The last link of the path is not
followed. If the root leads to a directory also without the artifacts there, all entries are kept
but these artifacts and what is below them.

Every entry that is new, or is not what it was, is a directory on a path where pages are put, as
this path leads when the documentation was prepared. -/
theorem build_changes_only_artifacts_and_outputs (programs : Programs) (still : programs.Still)
    (cx : Context) (registry : Registry Action) (built : buildRegistry = .ok registry)
    (directives : List String) (s : Session) :
    (∀ location face, s.world.files.face? location = some face →
      ((registry.run programs cx directives).final s).world.files.face? location = some face ∨
        ∃ m, Builds registry programs cx directives s .clean m ∧
          ∃ artifact ∈ Context.artifacts, ∃ spot,
            m.world.locate ((cx.rootPath s.world).join ⟨artifact⟩) false = .ok spot ∧
              spot <+: location) ∧
    (∀ here, (s.world.withFiles (s.world.files.without (Context.artifactsAt here))).locate
        (cx.rootPath s.world) true = .ok here →
      ∀ location face, s.world.files.face? location = some face →
        (∀ spot ∈ Context.artifactsAt here, ¬ spot <+: location) →
          ((registry.run programs cx directives).final s).world.files.face? location = some face) ∧
    (∀ location face,
      ((registry.run programs cx directives).final s).world.files.face? location = some face →
        s.world.files.face? location = some face ∨
          face = .directory ∧ ∃ m, Builds registry programs cx directives s .docs m ∧
            ∃ out ∈ [cx.docs.manOut, cx.docs.webManOut],
              ∃ above ∈ ((cx.rootPath s.world).join ⟨out⟩).ancestors,
                (cx.prepareDocs.final m).world.locate above true = .ok location) :=
  ⟨fun _ _ => kept_or_cleaned still built,
    fun _ led _ _ found outside => kept_outside_artifacts still built led found outside,
    fun _ _ => before_or_made still built⟩

/-! ## A root that leads through an artifact -/

/-- A tree with a link in an artifact. -/
def linkedArtifact : Session :=
  let inner : Directory := .entry "zig-out" (.directory (.entry "keep" (.file .empty false) .empty))
    .empty
  let project : Directory := .entry "zig-out" (.directory (.entry "x" (.link "/a/b") .empty))
    (.entry "y" (.directory inner) .empty)
  let other : Directory := .entry "b" (.directory .empty) .empty
  ⟨⟨.entry "p" (.directory project) (.entry "a" (.directory other) (.entry "y" (.link "p") .empty)),
    [], ⟨[]⟩⟩, none, []⟩

/-- A context in which both tools are there. -/
def contextAt (root : String) : Context :=
  ⟨⟨root⟩, ⟨"zig"⟩, some ⟨"asciidoctor"⟩, .default⟩

/-- An ordinary root keeps what is below a directory with artifacts of its own. -/
theorem build_changes_only_artifacts_and_outputs_ordinary :
    ∃ registry, buildRegistry = .ok registry ∧
      ((registry.run (fun _ _ => .error .notFound) (contextAt "/p")
        ["clean", "docs", "clean"]).final linkedArtifact).world.files.face?
          ["p", "y", "zig-out", "keep"] = some (.file .empty false) := by
  have still : Programs.Still fun _ _ => .error .notFound := nofun
  obtain ⟨_, kept, _⟩ := build_changes_only_artifacts_and_outputs _ still (contextAt "/p") _
    buildRegistry_eq ["clean", "docs", "clean"] linkedArtifact
  exact ⟨_, buildRegistry_eq, kept ["p"] rfl _ _ rfl (by decide)⟩

/-- A root that leads through a link in its own artifacts. When they are gone and directories have
been made in their place, it leads to another project, and the next cleaning takes away an entry
that was not at or below an artifact of the root at first. -/
theorem clean_after_docs_loses_entry :
    Programs.Still (fun _ _ => .error .notFound) ∧
    linkedArtifact.world.files.face? ["p", "y", "zig-out", "keep"] = some (.file .empty false) ∧
    (∀ artifact ∈ Context.artifacts, ∀ spot,
      linkedArtifact.world.locate (((contextAt "/p/zig-out/x/../../y").rootPath
          linkedArtifact.world).join ⟨artifact⟩) false = .ok spot →
        ¬ spot <+: ["p", "y", "zig-out", "keep"]) ∧
    ∃ registry, buildRegistry = .ok registry ∧
      ((registry.run (fun _ _ => .error .notFound) (contextAt "/p/zig-out/x/../../y")
        ["clean", "docs", "clean"]).final linkedArtifact).world.files.face?
          ["p", "y", "zig-out", "keep"] = none := by
  refine ⟨nofun, rfl, ?_, _, buildRegistry_eq, by decide +kernel⟩
  intro artifact mem spot located
  rcases List.mem_cons.mp mem with rfl | mem
  · -- the root leads to `p` at first
    cases located
    decide
  · -- where it has no cache
    cases List.mem_singleton.mp mem
    cases located

end Build

end BuildRunner.Registry
