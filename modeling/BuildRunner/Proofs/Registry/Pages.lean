import BuildRunner.Proofs.Action.Docs
import BuildRunner.Proofs.Action.Plan
import BuildRunner.Proofs.Registry.Invariant
import BuildRunner.Proofs.World.Executable

/-!
# Where manual pages are put

Directories for pages are made from the working directory, when the documentation is prepared, and
pages are put by programs that run in the root and are told where by an argument. Both lead to the
same place: when a program is started, its argument names a child of a directory that was made, as
long as no program takes directories away.

The documentation is prepared right before, whatever else is dispatched. The root cannot be empty,
since no program is started there, and from any other root a relative path leads where it leads when
the working directory is put before it.
-/

namespace BuildRunner

open Run

/-! ## Programs that take no directories away -/

/-- Directories are still there: each path that leads to one in a world does so in another one. -/
structure World.DirectoriesKept (w w' : World) : Prop where
  workingDirectory : w'.workingDirectory = w.workingDirectory
  isDirectory : ∀ p, w.isDirectory p = true → w'.isDirectory p = true

theorem World.PartOf.directoriesKept {w w' : World} (h : w.PartOf w') : w.DirectoriesKept w' :=
  ⟨h.workingDirectory, fun _ => h.isDirectory⟩

/-- Programs that neither remove directories nor replace them. A link that leads to a directory
counts as one. -/
def Programs.KeepDirectories (programs : Programs) : Prop :=
  ∀ launch w outcome, programs launch w = .ok outcome →
    w.DirectoriesKept (w.withFiles outcome.files)

theorem directoriesKept_guarantee :
    Guarantee fun s s' => s.world.DirectoriesKept s'.world where
  refl _ := ⟨rfl, fun _ stands => stands⟩
  trans first next := ⟨next.workingDirectory.trans first.workingDirectory,
    fun p stands => next.isDirectory p (first.isDirectory p stands)⟩
  log _ _ := ⟨rfl, fun _ stands => stands⟩

/-- Running invocations takes no directories away if the programs do not. -/
theorem Programs.KeepDirectories.runAll {programs : Programs} (kept : programs.KeepDirectories)
    {directory : Path} {invocations : List Invocation} {s m : Session}
    (ran : (Invocation.runAll programs directory invocations).run s = .ok () m) :
    s.world.DirectoriesKept m.world := by
  have guarantee := directoriesKept_guarantee
  have start (invocation : Invocation) : Ensures (fun s s' => s.world.DirectoriesKept s'.world)
      (invocation.start programs directory) :=
    Invocation.ensures_start guarantee fun s launch outcome starts =>
      kept launch s.world outcome starts.ran
  have ensures := Invocation.closed_runAll guarantee.closed start invocations
  exact ensures.of_ok ran

namespace Registry

variable {registry : Registry Action} {programs : Programs} {cx : Context}
  {directives : List String} {s m : Session}

/-! ## Before manual pages are rendered -/

/-- Every command that renders manual pages prepares the documentation right before. -/
theorem docs_before_manPages : ∀ command ∈ buildCommands,
    ∀ position < (commandJobs command).length,
      (commandJobs command)[position]?.bind Job.action? = some .manPages →
      ((commandJobs command).take position).getLast? = some (.prerequisite .docs) := by
  decide

/-- When manual pages are about to be rendered, the documentation is prepared. -/
theorem prepared_of_builds (built : buildRegistry = .ok registry)
    (builds : Builds registry programs cx directives s .manPages m) : cx.Prepared m.world := by
  obtain rfl : registry = ⟨buildCommands⟩ := Except.ok.inj (built.symm.trans buildRegistry_eq)
  obtain ⟨before, job, after, mid, split, completed, performs⟩ := builds
  obtain ⟨first, directive, rest, inner, behind, rfl, block, rfl⟩ := exists_block_of_split split
  have own := performs.action?_eq
  have mem : job ∈ directiveJobs ⟨buildCommands⟩ directive := by
    rw [block]
    exact List.mem_append_right _ List.mem_cons_self
  obtain ⟨command, listed, same⟩ := exists_command_of_mem_directiveJobs mem own
  rw [block] at same
  have last : inner.getLast? = some (.prerequisite .docs) := by
    have checked := docs_before_manPages command listed inner.length
    rw [← same, List.take_left] at checked
    exact checked (by simp) (by simpa using own)
  obtain ⟨front, rfl⟩ := List.getLast?_eq_some_iff.mp last
  have ran := runJobs_eq_ok.mpr completed
  rw [← List.append_assoc, runJobs_append, runJobs_singleton] at ran
  obtain ⟨_, earlier, _, docs⟩ := bind_eq_ok.mp ran
  rw [(Job.Performs.prerequisite Action.docs earlier).run_eq,
    Action.perform_eq_of_step nestingLimit_ne_zero rfl] at docs
  have prepared := Context.prepared_of_prepareDocs docs
  cases performs <;> exact prepared

/-! ## Where pages are put -/

/-- A directory that was found from the working directory is found from the root when a program is
started there. -/
theorem isDirectory_path_of_launch {w : World} {launch : Launch} {out : String}
    (checked : w.checkLaunch launch = .ok ()) (root : launch.directory = cx.root)
    (named : ∀ name ∈ w.workingDirectory, IsName name)
    (stands : w.isDirectory ((cx.rootPath w).join ⟨out⟩) = true) :
    w.isDirectory (cx.path out) = true := by
  have started := (World.of_checkLaunch checked).1
  rw [root] at started
  obtain ⟨location, located, _⟩ := World.isDirectory_iff.mp started
  cases absolute : cx.root.isAbsolute with
  | true => rwa [Context.rootPath, Path.join_of_isAbsolute _ absolute] at stands
  | false =>
    obtain ⟨_, steps⟩ := World.locate_eq_ok.mp located
    rw [absolute] at steps
    have working : w.files.isDirectoryAt w.workingDirectory = true := by
      obtain ⟨here, start, _⟩ := World.locateSteps_eq_ok.mp steps
      rw [World.origin?, if_neg Bool.false_ne_true] at start
      split at start
      · assumption
      · cases start
    rw [Context.rootPath, Path.join_assoc] at stands
    have nonempty := Path.raw_join_ne_empty (World.raw_ne_empty_of_locate located) ⟨out⟩
    exact World.isDirectory_of_join_working working named nonempty stands

section Child

variable {entries : Directory} {asciidoctor : Path} {position : Nat} {w : World} {launch : Launch}

/-- A directory for pages is there whenever a program of a plan is started. -/
theorem isDirectory_path_of_launches (kept : programs.KeepDirectories)
    (wf : m.world.files.WellFormed) (prepared : cx.Prepared m.world)
    {plan : List Invocation} (comes : Invocation.Launches programs cx.root plan m position w launch)
    {out : String} (mem : out ∈ [cx.docs.manOut, cx.docs.webManOut]) :
    w.isDirectory (cx.path out) = true := by
  obtain ⟨done, invocation, rest, mid, outcome, split, length, before, rfl, starts⟩ := comes
  have still := kept.runAll before
  obtain ⟨working, there⟩ := Directory.isDirectoryAt_iff.mp prepared.working
  apply isDirectory_path_of_launch starts.checked starts.directory
  · rw [still.workingDirectory]
    exact (wf.get? there).2
  · rw [cx.rootPath_congr still.workingDirectory]
    exact still.isDirectory _ (prepared.outputs out mem)

/-- The page at a position of the plan is a child of the directory for it. -/
theorem child_of_launches (kept : programs.KeepDirectories) (wf : m.world.files.WellFormed)
    (prepared : cx.Prepared m.world)
    (found : m.world.node (cx.path cx.docs.manSrc) true = .ok (.directory entries))
    (comes : Invocation.Launches programs cx.root ((Context.sourceNames entries).flatMap
      (Context.pageInvocations asciidoctor cx.docs)) m position w launch) :
    ∃ name format target page, (Context.sourceNames entries)[position / 2]? = some name ∧
      launch.arguments = ["-b", format, ((Path.mk cx.docs.manSrc).join ⟨name⟩).text, "-o", target] ∧
      w.Child (cx.path (Context.pageDirectory cx.docs position)) (cx.root.join ⟨target⟩) page := by
  have inner := World.wellFormed_of_node wf found
  have sound : ∀ name ∈ Context.sourceNames entries,
      IsSegment (name : RawText) ∧ Context.isSource name = true := fun name mem =>
    ⟨Context.isSegment_of_mem_sourceNames inner mem, Context.isSource_of_mem_sourceNames mem⟩
  have listed : Context.pageDirectory cx.docs position ∈ [cx.docs.manOut, cx.docs.webManOut] := by
    rw [Context.pageDirectory]
    split
    · exact List.mem_cons_of_mem _ List.mem_cons_self
    · exact List.mem_cons_self
  have stands := isDirectory_path_of_launches kept wf prepared comes listed
  obtain ⟨done, invocation, rest, mid, outcome, split, length, _, _, starts⟩ := comes
  have own : ((Context.sourceNames entries).flatMap
      (Context.pageInvocations asciidoctor cx.docs))[position]? = some invocation := by
    rw [split, ← length]
    simp
  obtain ⟨name, format, page, ofSource, named, arguments⟩ :=
    Context.exists_page_of_getElem? sound own
  refine ⟨name, format, _, page, ofSource, starts.arguments.trans arguments, ?_⟩
  have joined := World.Child.of_join named stands
  rwa [Context.path, Path.join_assoc, ← Path.mk_text_join] at joined

end Child

/-- **Pages are put into the directories that were made for them.** Let programs leave well-formed
trees and take no directories away. Whatever is dispatched on the registry of the build, in whatever
context: when the dispatch comes to render manual pages, so that the documentation is prepared, the
programs it launches are those of the plan in order. At the moment a program is started, the
argument behind `-o`, joined to the root it is started in, has one name behind the components of the
directory for pages, and it stands for the entry of this name in this directory, which is there. The
programs at even positions put their pages into the directory for the web, the others into the one
for `man`, two for each source. -/
theorem pages_are_put_into_directories (programs : Programs) (sound : programs.KeepWellFormed)
    (kept : programs.KeepDirectories) (cx : Context) (registry : Registry Action)
    (built : buildRegistry = .ok registry) (directives : List String) (s m : Session)
    (wf : s.world.files.WellFormed)
    (builds : Builds registry programs cx directives s .manPages m) :
    ∃ started,
      ((Action.perform programs cx registry nestingLimit .manPages).final m).launches =
        m.launches ++ started ∧
      ∀ position launch, started[position]? = some launch → ∃ plan entries w,
        cx.manPagesPlan.run m = .ok plan m ∧
        m.world.node (cx.path cx.docs.manSrc) true = .ok (.directory entries) ∧
        Invocation.Launches programs cx.root plan m position w launch ∧
        ∃ name format target page, (Context.sourceNames entries)[position / 2]? = some name ∧
          launch.arguments =
            ["-b", format, ((Path.mk cx.docs.manSrc).join ⟨name⟩).text, "-o", target] ∧
          w.Child (cx.path (Context.pageDirectory cx.docs position)) (cx.root.join ⟨target⟩)
            page := by
  have prepared := prepared_of_builds built builds
  have wf' : m.world.files.WellFormed := sound.invariant.of_builds built builds wf
  obtain ⟨asciidoctor, tool⟩ := prepared.asciidoctor
  rw [Action.perform_eq_of_step nestingLimit_ne_zero rfl, final_bind]
  cases planned : cx.manPagesPlan.run m with
  | error failure e =>
    have unchanged := cx.closed_manPagesPlan launches_guarantee.closed m
    rw [final_of_error planned] at unchanged
    exact ⟨[], by rw [unchanged, List.append_nil], fun _ _ listed => by cases listed⟩
  | ok plan m' =>
    obtain ⟨entries, found, rfl, rfl⟩ := (Context.manPagesPlan_eq_ok tool).mp planned
    obtain ⟨started, launches, comes⟩ := Invocation.runAll_launches programs cx.root _ m'
    refine ⟨started, launches, fun position launch listed => ?_⟩
    obtain ⟨w, comes⟩ := comes position launch listed
    exact ⟨_, entries, w, rfl, found, comes, child_of_launches kept wf' prepared found comes⟩

/-- A directory with one manual page. -/
def manualPage : Directory :=
  .entry "x.adoc" (.file .empty false) .empty

/-- A project with this directory, beside Asciidoctor. -/
def pagesProject : Session :=
  ⟨⟨.ofList [("p", .directory (.entry "man" (.directory manualPage) .empty)),
    ("asciidoctor", .file .empty true)], [], ⟨[]⟩⟩, none, []⟩

/-- A context that puts pages for the web into the root, and those for `man` beside it. -/
def detouredOutputs : Context :=
  ⟨⟨"p/."⟩, ⟨"/zig"⟩, some ⟨"/asciidoctor"⟩,
    ⟨{ Settings.Docs.default with manSrc := "man/", manOut := "../out/", webManOut := "" },
      .default⟩⟩

/-- Both pages of the source are put where they belong, in spite of all detours. -/
theorem pages_are_put_into_directories_detoured :
    let idle : Programs := fun _ w => .ok ⟨.code 0, w.files, "", ""⟩
    idle.KeepWellFormed ∧ idle.KeepDirectories ∧ pagesProject.world.files.WellFormed ∧
    ∃ registry m, ∃ w w' : World, ∃ page page', buildRegistry = .ok registry ∧
      Builds registry idle detouredOutputs ["man-pages"] pagesProject .manPages m ∧
      ((Action.perform idle detouredOutputs registry nestingLimit .manPages).final m).launches =
        [⟨⟨"/asciidoctor"⟩, ["-b", "html", "man/x.adoc", "-o", "x.html"], ⟨"p/."⟩⟩,
          ⟨⟨"/asciidoctor"⟩, ["-b", "manpage", "man/x.adoc", "-o", "../out/x.1"], ⟨"p/."⟩⟩] ∧
      w.Child ⟨"p/./"⟩ ⟨"p/./x.html"⟩ page ∧ w'.Child ⟨"p/./../out/"⟩ ⟨"p/./../out/x.1"⟩ page' := by
  intro idle
  let cx := detouredOutputs
  have sound : idle.KeepWellFormed := by
    rintro launch w outcome ⟨⟩ wf
    exact wf
  have kept : idle.KeepDirectories := by
    rintro launch w outcome ⟨⟩
    exact (World.PartOf.refl w).directoriesKept
  have wf : pagesProject.world.files.WellFormed := by decide
  -- the documentation is prepared
  let docs := runJobs (Action.perform idle cx ⟨buildCommands⟩ nestingLimit) [.prerequisite .docs]
  have succeeded : docs.succeeds pagesProject = true := by decide +kernel
  obtain ⟨_, ran⟩ := run_eq_ok_of_succeeds succeeded
  have performs := Job.Performs.own "man-pages" Action.manPages (docs.final pagesProject)
  generalize entered : (docs.final pagesProject).record _ = m at performs
  have builds : Builds ⟨buildCommands⟩ idle cx ["man-pages"] pagesProject .manPages m :=
    ⟨[.prerequisite .docs], _, [], _, rfl, runJobs_eq_ok.mp ran, performs⟩
  -- the plan is that of the one source
  have found : (m.world.node (cx.path cx.docs.manSrc) true).toOption =
      some (.directory manualPage) := by
    subst entered
    decide +kernel
  have planned : cx.manPagesPlan.run m =
      .ok (Context.pageInvocations ⟨"/asciidoctor"⟩ cx.docs "x.adoc") m := by
    cases node : m.world.node (cx.path cx.docs.manSrc) true with
    | error fault =>
      rw [node] at found
      cases found
    | ok reached =>
      rw [node] at found
      cases found
      refine (Context.manPagesPlan_eq_ok rfl).mpr ⟨_, node, ?_, rfl⟩
      have single : Context.sourceNames manualPage = ["x.adoc"] := List.mergeSort_singleton _
      rw [single, List.flatMap_singleton]
  have ended : m.launches = [] ∧
      ((Action.perform idle cx ⟨buildCommands⟩ nestingLimit .manPages).final m).launches =
        [⟨⟨"/asciidoctor"⟩, ["-b", "html", "man/x.adoc", "-o", "x.html"], ⟨"p/."⟩⟩,
          ⟨⟨"/asciidoctor"⟩, ["-b", "manpage", "man/x.adoc", "-o", "../out/x.1"], ⟨"p/."⟩⟩] := by
    rw [Action.perform_eq_of_step nestingLimit_ne_zero rfl, final_bind, planned]
    subst entered
    decide +kernel
  obtain ⟨started, launches, comes⟩ := pages_are_put_into_directories idle sound kept cx _
    buildRegistry_eq ["man-pages"] pagesProject m wf builds
  rw [ended.2, ended.1, List.nil_append] at launches
  subst launches
  obtain ⟨_, _, w, _, _, _, _, _, _, page, _, web, child⟩ := comes 0 _ rfl
  obtain ⟨_, _, w', _, _, _, _, _, _, page', _, man, child'⟩ := comes 1 _ rfl
  simp only [List.cons.injEq, and_true, true_and] at web man
  obtain ⟨_, _, rfl⟩ := web
  obtain ⟨_, _, rfl⟩ := man
  have paths : cx.path (Context.pageDirectory cx.docs 0) = ⟨"p/./"⟩ ∧
      cx.root.join ⟨"x.html"⟩ = ⟨"p/./x.html"⟩ ∧
      cx.path (Context.pageDirectory cx.docs 1) = ⟨"p/./../out/"⟩ ∧
      cx.root.join ⟨"../out/x.1"⟩ = ⟨"p/./../out/x.1"⟩ := by
    decide +kernel
  rw [paths.1, paths.2.1] at child
  rw [paths.2.2.1, paths.2.2.2] at child'
  exact ⟨sound, kept, wf, _, m, w, w', page, page', buildRegistry_eq, builds, ended.2, child,
    child'⟩

end Registry

end BuildRunner
