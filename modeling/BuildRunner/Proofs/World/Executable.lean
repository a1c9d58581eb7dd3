import BuildRunner.Invocation
import BuildRunner.Proofs.World.Paths

/-!
# The file that is executed

A program is looked up before it is started, and these are two things: a path is found to lead to an
executable file, from the working directory if it is relative, and later an absolute path is
executed. As long as the first path leads where it led, the second one leads there, too.

An absolute path is needed because a program may be started in another directory than the working
directory.
-/

namespace BuildRunner

variable {w : World} {p program : Path} {location other : Location} {content : ByteArray}
  {node : Node}

/-- A first step that stays leads nowhere else. -/
theorem Directory.resolve_stay (top : Directory) (follow : Bool) (links : Nat) (here : Location)
    (steps : List Step) :
    top.resolve follow links here (.stay :: steps) = top.resolve follow links here steps := by
  rw [resolve, resolve, advance]

namespace World

/-- A path leads to an executable file at a location. -/
structure LeadsToProgram (w : World) (p : Path) (location : Location) (content : ByteArray) :
    Prop where
  located : w.locate p true = .ok location
  found : w.files.get? location = some (.file content true)

/-- What counts as executable when programs are looked up. -/
theorem isExecutable_iff : w.isExecutable p = true ↔
    ∃ location content, w.LeadsToProgram p location content := by
  rw [isExecutable]
  constructor
  · intro executable
    split at executable
    · next content _ there =>
      subst executable
      obtain ⟨location, located, found⟩ := node_eq_ok.mp there
      exact ⟨location, content, located, found⟩
    · cases executable
  · rintro ⟨location, content, located, found⟩
    rw [node_eq_ok.mpr ⟨location, located, found⟩]

/-! ## A relative path behind the working directory -/

/-- A relative path leads where it leads without a `.` in front of it. -/
theorem locate_of_locate_here (relative : p.isAbsolute = false)
    (located : w.locate ⟨"./" ++ p.raw⟩ true = .ok location) (nonempty : p.raw ≠ "") :
    w.locateSteps p.isAbsolute true p.steps = .ok location := by
  have joined : Path.mk ("./" ++ p.raw) = (Path.mk ".").join p := by
    rw [Path.join_of_relative (by decide) relative]
    rfl
  have single : (Path.mk ".").segmentSteps = [.stay] := by decide
  have absolute : ((Path.mk ".").join p).isAbsolute = p.isAbsolute :=
    (Path.segments_join_relative relative (by decide)).1.trans relative.symm
  rw [joined] at located
  obtain ⟨_, reached⟩ := locate_eq_ok.mp located
  rw [absolute, Path.steps_join_relative relative (by decide) nonempty, single] at reached
  obtain ⟨here, start, reached⟩ := locateSteps_eq_ok.mp reached
  rw [List.singleton_append, Directory.resolve_stay] at reached
  exact locateSteps_eq_ok.mpr ⟨here, start, reached⟩

/-! ## The path of a location -/

/-- The path of a location leads to it, unless a link stands there. -/
theorem eq_of_locate_pathOf (wf : w.files.WellFormed) (found : w.files.get? location = some node)
    (kind : node.kind ≠ .link) (located : w.locate (pathOf location) true = .ok other) :
    other = location := by
  have named := (wf.get? found).2
  have plain : Step.plain (pathOf location).steps = location.map .name := by
    rw [← Path.plain_segmentSteps, segmentSteps_pathOf named, Step.plain_names]
  have down : w.locateSteps true true (location.map .name) = .ok location :=
    Directory.resolve_names named _ found kind
  have led := locateSteps_plain (locate_eq_ok.mp located).2
  rw [isAbsolute_pathOf, plain, down] at led
  exact (Except.ok.inj led).symm

/-- The file that is executed for a path is the one that the path leads to, and it is given by an
absolute path. -/
theorem leadsToProgram_of_executable (wf : w.files.WellFormed)
    (tool : w.LeadsToProgram p location content) (file : w.executable p = .ok program)
    (there : w.node program true = .ok node) :
    program.isAbsolute = true ∧ w.LeadsToProgram program location content := by
  rw [executable] at file
  split at file
  · next absolute =>
    cases file
    exact ⟨absolute, tool⟩
  · next relative =>
    rw [Bool.not_eq_true] at relative
    rw [canonical] at file
    cases here : w.locate ⟨"./" ++ p.raw⟩ true with
    | error fault =>
      rw [here] at file
      cases file
    | ok reached =>
      rw [here] at file
      cases file
      obtain ⟨_, own⟩ := locate_eq_ok.mp tool.located
      have same := locate_of_locate_here relative here (raw_ne_empty_of_locate tool.located)
      obtain rfl : reached = location := Except.ok.inj (same.symm.trans own)
      obtain ⟨other, located, _⟩ := node_eq_ok.mp there
      obtain rfl := eq_of_locate_pathOf wf tool.found nofun located
      exact ⟨isAbsolute_pathOf _, located, tool.found⟩

/-- A program is started in a directory, and its file is executable. -/
theorem of_checkLaunch {launch : Launch} (checked : w.checkLaunch launch = .ok ()) :
    w.isDirectory launch.directory = true ∧
      ∃ content, w.node launch.program true = .ok (.file content true) := by
  unfold checkLaunch at checked
  dsimp only at checked
  split at checked
  · cases checked
  · obtain ⟨directory, there, checked⟩ := bind_eq_ok.mp checked
    split at checked
    · next entries =>
      obtain ⟨file, found, checked⟩ := bind_eq_ok.mp checked
      split at checked
      · next content => exact ⟨isDirectory_iff_node.mpr ⟨entries, there⟩, content, found⟩
      · cases checked
    · cases checked

end World

end BuildRunner
