import BuildRunner.Proofs.Action.Frame
import BuildRunner.Proofs.Session.Alike
import BuildRunner.Proofs.World.Directories

/-!
# Preparing the documentation again

Once the documentation was prepared, Asciidoctor is there and so are the directories for pages.
Preparing it where this is so only logs. Hence it need not be prepared again as long as nothing
changes the world in between.

Where it could not be prepared because the file tree refused, it cannot be prepared by trying again:
what was made before the refusal is there now, and the path that was refused is refused again.
-/

namespace BuildRunner

open Run

/-! ## Making directories -/

namespace Run

variable {s s' : Session} {path : Path}

theorem run_makeDirectory (path : Path) (s : Session) :
    (makeDirectory path).run s =
      match s.world.makeDirectories path with
      | (w, none) => .ok () { s with world := w }
      | (w, some fault) => .error (.shell (.creating path fault)) { s with world := w } := by
  rw [makeDirectory, bind_of_ok (run_world s)]
  rcases s.world.makeDirectories path with ⟨w, _ | fault⟩ <;> rfl

/-- A directory that is there is made without any change. -/
theorem makeDirectory_of_isDirectory (stands : s.world.isDirectory path = true) :
    (makeDirectory path).run s = .ok () s := by
  rw [run_makeDirectory, World.makeDirectories_of_isDirectory stands]

theorem isDirectory_of_makeDirectory (made : (makeDirectory path).run s = .ok () s') :
    s'.world.isDirectory path = true := by
  rw [run_makeDirectory] at made
  split at made
  · next w reached =>
    cases made
    exact World.isDirectory_of_makeDirectories reached
  · cases made

/-- Where an absolute directory could not be made, no other try makes anything. -/
theorem makeDirectory_again {failure : Failure} (absolute : path.isAbsolute = true)
    (failed : (makeDirectory path).run s = .error failure s') :
    s'.world.Barred path ∧ ∀ t : Session, t.world = s'.world →
      ∃ fault, (makeDirectory path).run t = .error (.shell (.creating path fault)) t := by
  rw [run_makeDirectory] at failed
  split at failed
  · cases failed
  · next reached =>
    cases failed
    obtain ⟨barred, refused, again⟩ := World.makeDirectories_again absolute reached
    refine ⟨barred, fun t same => ⟨refused, ?_⟩⟩
    rw [run_makeDirectory, same, again]
    cases same
    rfl

end Run

namespace Context

variable {cx : Context} {s s' : Session} {w w' : World} {base : Path} {names : List String}

theorem isDirectory_of_makeAll (made : (makeAll base names).run s = .ok () s') :
    ∀ name ∈ names, s'.world.isDirectory (base.join ⟨name⟩) = true := by
  induction names generalizing s with
  | nil => exact fun _ mem => absurd mem List.not_mem_nil
  | cons name names ih =>
    obtain ⟨_, mid, first, rest⟩ := bind_eq_ok.mp made
    obtain ⟨_, logged, report, rest⟩ := bind_eq_ok.mp rest
    -- directories made later take none of the earlier ones away
    have own := isDirectory_of_makeDirectory first
    have later := (extends_makeAll base names logged).part
    rw [final_of_ok rest] at later
    cases report
    exact List.forall_mem_cons.mpr ⟨later.isDirectory own, ih rest⟩

theorem makeAll_of_isDirectory
    (stand : ∀ name ∈ names, s.world.isDirectory (base.join ⟨name⟩) = true) :
    ∃ s', (makeAll base names).run s = .ok () s' ∧ s.LogsOnly s' := by
  suffices again : ∀ mid, s.LogsOnly mid →
      ∃ s', (makeAll base names).run mid = .ok () s' ∧ s.LogsOnly s' from again s .refl
  induction names with
  | nil => exact fun mid logs => ⟨mid, rfl, logs⟩
  | cons name names ih =>
    intro mid logs
    obtain ⟨own, others⟩ := List.forall_mem_cons.mp stand
    rw [← logs.world] at own
    rw [makeAll, bind_of_ok (makeDirectory_of_isDirectory own), bind_of_ok (run_log _ _ _ mid)]
    exact ih others _ (.log _ logs)

/-- Where directories below an absolute path could not all be made, one of them is barred, and
trying again makes nothing. -/
theorem makeAll_again {failure : Failure} (absolute : base.isAbsolute = true)
    (failed : (makeAll base names).run s = .error failure s') :
    (∃ name ∈ names, s'.world.Barred (base.join ⟨name⟩)) ∧
      ∀ t : Session, t.world = s'.world →
        ∃ fault t', (makeAll base names).run t = .error (.shell fault) t' ∧ t.LogsOnly t' := by
  suffices again : (∃ name ∈ names, s'.world.Barred (base.join ⟨name⟩)) ∧
      ∀ t mid : Session, t.LogsOnly mid → mid.world = s'.world →
        ∃ fault t', (makeAll base names).run mid = .error (.shell fault) t' ∧ t.LogsOnly t' from
    ⟨again.1, fun t => again.2 t t .refl⟩
  induction names generalizing s with
  | nil => cases failed
  | cons name names ih =>
    rcases bind_eq_error.mp failed with failed | ⟨_, mid, first, rest⟩
    · obtain ⟨barred, again⟩ := makeDirectory_again (Path.isAbsolute_join absolute _) failed
      refine ⟨⟨name, List.mem_cons_self, barred⟩, fun t mid logs same => ?_⟩
      obtain ⟨fault, again⟩ := again mid same
      exact ⟨_, mid, bind_of_error again, logs⟩
    · rcases bind_eq_error.mp rest with report | ⟨_, logged, report, rest⟩
      · cases report
      -- the first one is there now, so the refusal comes at the same place again
      have own := isDirectory_of_makeDirectory first
      have later := (extends_makeAll base names logged).part
      rw [final_of_error rest] at later
      cases report
      have own := later.isDirectory own
      obtain ⟨⟨refused, mem, barred⟩, again⟩ := ih rest
      refine ⟨⟨refused, List.mem_cons_of_mem _ mem, barred⟩, fun t mid logs same => ?_⟩
      rw [← same] at own
      rw [makeAll, bind_of_ok (makeDirectory_of_isDirectory own), bind_of_ok (run_log _ _ _ mid)]
      exact again t _ (.log _ logs) same

/-! ## What is prepared -/

/-- Asciidoctor and the directories for pages are there. -/
structure Prepared (cx : Context) (w : World) : Prop where
  asciidoctor : ∃ program, cx.asciidoctor = some program
  working : w.files.isDirectoryAt w.workingDirectory = true
  outputs : ∀ out ∈ [cx.docs.manOut, cx.docs.webManOut],
    w.isDirectory ((cx.rootPath w).join ⟨out⟩) = true

/-- Preparing the documentation makes directories, if Asciidoctor and the working directory are
there. -/
theorem run_prepareDocs (cx : Context) (s : Session) :
    cx.prepareDocs.run s =
      if cx.asciidoctor = none then .error (.toolMissing .asciidoctor) s
      else if s.world.files.isDirectoryAt s.world.workingDirectory then
        (makeAll (cx.rootPath s.world) [cx.docs.manOut, cx.docs.webManOut]).run s
      else .error (.shell (.noWorkingDirectory .notFound)) s := by
  rw [prepareDocs, needAsciidoctor]
  cases cx.asciidoctor with
  | none => rfl
  | some program =>
    have base := cx.run_base s
    rw [pure_bind, if_neg (Option.some_ne_none program)]
    split
    · next stands =>
      rw [if_pos stands] at base
      rw [bind_of_ok base]
    · next gone =>
      rw [if_neg gone] at base
      rw [bind_of_error base]

theorem prepareDocs_eq_ok : cx.prepareDocs.run s = .ok () s' ↔
    (∃ program, cx.asciidoctor = some program) ∧
      s.world.files.isDirectoryAt s.world.workingDirectory = true ∧
      (makeAll (cx.rootPath s.world) [cx.docs.manOut, cx.docs.webManOut]).run s = .ok () s' := by
  rw [run_prepareDocs, ← Option.ne_none_iff_exists']
  by_cases missing : cx.asciidoctor = none
  · simp [missing]
  · by_cases stands : s.world.files.isDirectoryAt s.world.workingDirectory = true
    · simp [missing, stands]
    · simp [missing, stands]

/-- After the documentation was prepared it is. -/
theorem prepared_of_prepareDocs (h : cx.prepareDocs.run s = .ok () s') : cx.Prepared s'.world := by
  obtain ⟨asciidoctor, working, made⟩ := prepareDocs_eq_ok.mp h
  have extended :=
    (extends_makeAll (cx.rootPath s.world) [cx.docs.manOut, cx.docs.webManOut] s).part
  rw [final_of_ok made] at extended
  refine ⟨asciidoctor, ?_, ?_⟩
  · rw [extended.workingDirectory]
    exact extended.files.isDirectoryAt working
  · rw [cx.rootPath_congr extended.workingDirectory]
    exact isDirectory_of_makeAll made

/-- Where the documentation is prepared, preparing it only logs. -/
theorem Prepared.prepareDocs (h : cx.Prepared s.world) :
    ∃ s', cx.prepareDocs.run s = .ok () s' ∧ s.LogsOnly s' := by
  obtain ⟨s', made, logs⟩ := makeAll_of_isDirectory h.outputs
  exact ⟨s', prepareDocs_eq_ok.mpr ⟨h.asciidoctor, h.working, made⟩, logs⟩

/-- The file tree refuses where the working directory is gone, or a directory cannot be made. -/
theorem prepareDocs_eq_error_shell {fault : ShellFault} :
    cx.prepareDocs.run s = .error (.shell fault) s' ↔
      (∃ program, cx.asciidoctor = some program) ∧
        (s.world.files.isDirectoryAt s.world.workingDirectory = false ∧ s' = s ∧
            fault = .noWorkingDirectory .notFound ∨
          s.world.files.isDirectoryAt s.world.workingDirectory = true ∧
            (makeAll (cx.rootPath s.world) [cx.docs.manOut, cx.docs.webManOut]).run s =
              .error (.shell fault) s') := by
  rw [run_prepareDocs, ← Option.ne_none_iff_exists']
  by_cases missing : cx.asciidoctor = none
  · simp [missing]
  · by_cases stands : s.world.files.isDirectoryAt s.world.workingDirectory = true
    · simp [missing, stands]
    · simp [missing, stands, eq_comm, and_comm]

/-- Where the file tree refused what preparing the documentation asked for, it refuses it again and
nothing is made. -/
theorem prepareDocs_refused_again {fault : ShellFault}
    (failed : cx.prepareDocs.run s = .error (.shell fault) s') :
    (s.world.files.isDirectoryAt s.world.workingDirectory = false ∨
        ∃ out ∈ [cx.docs.manOut, cx.docs.webManOut],
          s'.world.Barred ((cx.rootPath s'.world).join ⟨out⟩)) ∧
      ∃ refused s'', cx.prepareDocs.run s' = .error (.shell refused) s'' ∧ s'.LogsOnly s'' := by
  obtain ⟨asciidoctor, ⟨gone, rfl, _⟩ | ⟨working, refused⟩⟩ := prepareDocs_eq_error_shell.mp failed
  · exact ⟨.inl gone, fault, s', failed, .refl⟩
  · have extended :=
      (extends_makeAll (cx.rootPath s.world) [cx.docs.manOut, cx.docs.webManOut] s).part
    rw [final_of_error refused] at extended
    have root := cx.rootPath_congr extended.workingDirectory
    have working : s'.world.files.isDirectoryAt s'.world.workingDirectory = true := by
      rw [extended.workingDirectory]
      exact extended.files.isDirectoryAt working
    obtain ⟨barred, again⟩ := makeAll_again
      (Path.isAbsolute_join (World.isAbsolute_pathOf s.world.workingDirectory) cx.root) refused
    obtain ⟨fault', s'', again, logs⟩ := again s' rfl
    refine ⟨.inr ?_, fault', s'', prepareDocs_eq_error_shell.mpr ⟨asciidoctor, .inr ⟨working, ?_⟩⟩,
      logs⟩
    · rw [root]
      exact barred
    · rw [root]
      exact again

end Context

/-! ## One run settles it -/

namespace Action

/-- **Preparing the documentation is settled by one run.** If it succeeds, both directories for
pages are there, seen from the root and perhaps through links, and doing it again succeeds and
leaves the world as it is. If the file tree refuses, the tree differs from the one before only by
added directories, each where one of the two paths or one above them leads. Then the working
directory is gone or one of the two paths is barred, and doing it again fails in the same way and
leaves the world as the first run left it. -/
theorem docs_are_settled_by_one_run (programs : Programs) (cx : Context)
    (registry : Registry Action) {depth : Nat} (deep : depth ≠ 0) (s s' : Session) :
    ((docs.perform programs cx registry depth).run s = .ok () s' →
      (∀ out ∈ [cx.docs.manOut, cx.docs.webManOut],
        s'.world.isDirectory ((cx.rootPath s'.world).join ⟨out⟩) = true) ∧
      ∃ e, (docs.perform programs cx registry depth).run s' = .ok () e ∧ e.world = s'.world) ∧
    ∀ fault, (docs.perform programs cx registry depth).run s = .error (.shell fault) s' →
      World.Extends (cx.outputPaths s.world) s.world s'.world ∧
      (s.world.files.isDirectoryAt s.world.workingDirectory = false ∨
        ∃ out ∈ [cx.docs.manOut, cx.docs.webManOut],
          s'.world.Barred ((cx.rootPath s'.world).join ⟨out⟩)) ∧
      ∃ again e, (docs.perform programs cx registry depth).run s' = .error (.shell again) e ∧
        e.world = s'.world := by
  obtain ⟨depth, rfl⟩ := Nat.exists_eq_succ_of_ne_zero deep
  rw [show docs.perform programs cx registry (depth + 1) = cx.prepareDocs from rfl]
  refine ⟨fun made => ?_, fun fault failed => ?_⟩
  · have prepared := Context.prepared_of_prepareDocs made
    obtain ⟨e, again, logs⟩ := prepared.prepareDocs
    exact ⟨prepared.outputs, e, again, logs.world⟩
  · have extended := cx.extends_prepareDocs s
    rw [final_of_error failed] at extended
    obtain ⟨why, again, e, refused, logs⟩ := Context.prepareDocs_refused_again failed
    exact ⟨extended, why, again, e, refused, logs.world⟩

/-- A session in a tree with a project in which `docs` stands for the given node. -/
def projectWith (docs : Node) : Session :=
  ⟨⟨.ofList [("p", .directory (.ofList [("docs", docs)])), ("text", .directory .empty)], [], ⟨[]⟩⟩,
    none, []⟩

/-- Where a link leads to another directory, the pages for the web go there. Where a file is in the
way of the second path, the first one is made, and all further runs fail in this tree. -/
theorem docs_are_settled_by_one_run_detoured :
    let cx : Context := ⟨⟨"/text/../p"⟩, ⟨"/zig"⟩, some ⟨"/asciidoctor"⟩, .default⟩
    let preparing := docs.perform (fun _ _ => .error .notFound) cx .empty 1
    let web : Path := ⟨"/text/../p/docs/man"⟩
    1 ≠ 0 ∧
    (∃ s e, preparing.run (projectWith (.link "../text")) = .ok () s ∧
      s.world.files.isDirectoryAt ["text", "man"] = true ∧ s.world.isDirectory web = true ∧
      preparing.run s = .ok () e ∧ e.world = s.world) ∧
    ∃ s again e, preparing.run (projectWith (.file .empty false)) =
        .error (.shell (.creating web .notDirectory)) s ∧
      s.world.files.isDirectoryAt ["p", "man", "man1"] = true ∧ s.world.Barred web ∧
      preparing.run s = .error (.shell again) e ∧ e.world = s.world := by
  intro cx preparing web
  have settled := docs_are_settled_by_one_run (fun _ _ => .error .notFound) cx .empty
    Nat.one_ne_zero
  refine ⟨Nat.one_ne_zero, ?_, ?_⟩
  · have succeeds : preparing.succeeds (projectWith (.link "../text")) = true := by decide +kernel
    obtain ⟨_, ran⟩ := run_eq_ok_of_succeeds succeeds
    obtain ⟨outputs, e, again, same⟩ := (settled _ _).1 ran
    have own : (cx.rootPath (preparing.final (projectWith (.link "../text"))).world).join
        ⟨cx.docs.webManOut⟩ = web := by decide +kernel
    have stands := outputs cx.docs.webManOut (List.mem_cons_of_mem _ List.mem_cons_self)
    rw [own] at stands
    exact ⟨_, e, ran, by decide +kernel, stands, again, same⟩
  · have fails : preparing.failure? (projectWith (.file .empty false)) =
        some (.shell (.creating web .notDirectory)) := by decide +kernel
    have ran := run_eq_error_of_failure? fails
    obtain ⟨_, gone | ⟨out, mem, barred⟩, again, e, refused, same⟩ := (settled _ _).2 _ ran
    · cases gone
    · rcases List.mem_cons.mp mem with rfl | mem
      · -- the first path leads to the directory that was made
        have made : (preparing.final (projectWith (.file .empty false))).world.isDirectory
            ((cx.rootPath (preparing.final (projectWith (.file .empty false))).world).join
              ⟨cx.docs.manOut⟩) = true := by decide +kernel
        cases made.symm.trans barred.absent
      · cases List.mem_singleton.mp mem
        have own : (cx.rootPath (preparing.final (projectWith (.file .empty false))).world).join
            ⟨cx.docs.webManOut⟩ = web := by decide +kernel
        rw [own] at barred
        exact ⟨_, again, e, ran, by decide +kernel, barred, refused, same⟩

end Action

end BuildRunner
