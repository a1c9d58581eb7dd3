import BuildRunner.Lookup
import BuildRunner.Proofs.World.Executable

/-!
# What is found for a program

Which file a program is depends on how it is given. A path of several components is taken from the
working directory and is that file or none: `PATH` does not matter to it. A bare name is the first
file of that name in the directories of `PATH`, where all else that has the name is passed over.

The path that is found for a relative one is written anew, component by component, behind the path
of the working directory. It has the components that joining the two would give, and leads to the
same place, but a slash at its end is gone (`locateSteps_of_spells`).
-/

namespace BuildRunner

variable {w : World} {p base program path : Path} {location other : Location}

/-! ## Components behind a path -/

namespace Path

/-- The components of a relative path are those of its segments. -/
theorem componentsBelow_of_relative (relative : p.isAbsolute = false) :
    p.componentsBelow = bodyComponents p.segments := by
  have names : (bodyComponents p.segments).filter (· ≠ .here) = bodyComponents p.segments := by
    refine List.filter_eq_self.mpr fun component mem => ?_
    obtain ⟨segment, _, rfl⟩ := List.mem_map.mp mem
    rw [componentOf]
    split <;> rfl
  have lead : p.lead.toList.filter (· ≠ .here) = [] := by
    rw [Path.lead, relative, if_neg Bool.false_ne_true]
    split <;> rfl
  rw [componentsBelow, components_eq, List.filter_append, lead, names, List.nil_append]

/-- A segment that is joined adds its component. -/
theorem components_join_segment {segment : RawText} (plain : Path.slash ∉ segment.bytes)
    (nonempty : p.raw ≠ "") :
    (p.join ⟨segment⟩).components = p.components ++ bodyComponents [segment] := by
  have relative : (Path.mk segment).isAbsolute = false := by
    rw [isAbsolute, decide_eq_false_iff_not]
    exact fun head => plain (List.mem_of_head? head)
  have single : (Path.mk segment).segments = [segment] := pieces_of_not_mem plain
  rw [components_join_relative relative nonempty, single]

/-- Components that are joined one after the other are added. -/
theorem components_joinComponents {segments : List RawText}
    (plain : ∀ segment ∈ segments, Path.slash ∉ segment.bytes) (nonempty : p.raw ≠ "") :
    (p.joinComponents (bodyComponents segments)).components =
      p.components ++ bodyComponents segments := by
  induction segments generalizing p with
  | nil => exact (List.append_nil _).symm
  | cons segment segments ih =>
    obtain ⟨own, others⟩ := List.forall_mem_cons.mp plain
    have split : bodyComponents (segment :: segments) =
        bodyComponents [segment] ++ bodyComponents segments :=
      bodyComponents_append [segment] segments
    cases filler : isFiller segment with
    | true =>
      have none : bodyComponents [segment] = [] := by simp [bodyComponents, filler]
      rw [split, none, List.nil_append]
      exact ih others nonempty
    | false =>
      have single : bodyComponents [segment] = [componentOf segment] := by
        simp [bodyComponents, filler]
      have joined := components_join_segment own nonempty
      rw [split, ← List.append_assoc, ← joined, ← ih others (raw_join_ne_empty nonempty _), single,
        List.singleton_append, joinComponents, List.foldl_cons, segment_componentOf]
      rfl

/-- A relative path that is written behind another one component by component has the components of
the joined path. -/
theorem components_below (relative : p.isAbsolute = false) (nonempty : base.raw ≠ "") :
    (base.joinComponents p.componentsBelow).components = (base.join p).components := by
  rw [componentsBelow_of_relative relative, components_join_relative relative nonempty]
  exact components_joinComponents (fun _ => not_mem_of_mem_segments) nonempty

end Path

namespace World

/-! ## What can be found -/

/-- A path leads to an executable file. -/
def HasProgram (w : World) (path : Path) : Prop :=
  ∃ location content, w.LeadsToProgram path location content

/-- The path of a program in a directory of the search path. -/
def entry (w : World) (directory program : Path) : Path :=
  (directory.underHome (w.environment.get? "HOME")).join program

/-- A path stands for a program that is given by it: an absolute path by itself, a relative one
behind the path of the working directory. -/
inductive Spells (w : World) (program : Path) : Path → Prop
  | absolute : program.isAbsolute = true → Spells w program program
  | relative {here : Path} : program.isAbsolute = false → w.workingPath = .ok here →
      Spells w program (here.joinComponents program.componentsBelow)

/-- A path is that of a program in the first directory of `PATH` that holds it as an executable
file. -/
structure FirstOnSearchPath (w : World) (program path : Path) : Prop where
  found : ∃ searchPath before directory behind,
    w.environment.get? "PATH" = some searchPath ∧
      searchDirectories searchPath = before ++ directory :: behind ∧
      path = w.entry directory program ∧
      ∀ earlier ∈ before, ¬ w.HasProgram (w.entry earlier program)
  file : w.HasProgram path

/-- What is found for a program: by a path of several components only what this path leads to, and
by a bare name only what the search path holds. -/
inductive Finds (w : World) (program path : Path) : Prop
  | given (several : 1 < program.components.length) (spelled : w.Spells program path)
      (file : w.HasProgram path)
  | searched (bare : program.components.length ≤ 1) (first : w.FirstOnSearchPath program path)

theorem Finds.file (finds : w.Finds program path) : w.HasProgram path := by
  cases finds with
  | given _ _ file => exact file
  | searched _ first => exact first.file

theorem spells_of_isAbsolute (absolute : program.isAbsolute = true) :
    w.Spells program path ↔ path = program := by
  constructor
  · intro spelled
    cases spelled with
    | absolute _ => rfl
    | relative relative _ => cases absolute.symm.trans relative
  · rintro rfl
    exact .absolute absolute

theorem spells_of_relative (relative : program.isAbsolute = false) :
    w.Spells program path ↔
      ∃ here, w.workingPath = .ok here ∧ path = here.joinComponents program.componentsBelow := by
  constructor
  · intro spelled
    cases spelled with
    | absolute absolute => cases relative.symm.trans absolute
    | relative _ working => exact ⟨_, working, rfl⟩
  · rintro ⟨here, working, rfl⟩
    exact .relative relative working

/-- The only candidate is found if it is an executable file. -/
theorem find?_only {candidate : Path} :
    [candidate].find? w.isExecutable = some path ↔ path = candidate ∧ w.HasProgram path := by
  rw [List.find?_singleton, Option.ite_none_right_eq_some, isExecutable_iff, and_comm,
    Option.some_inj, eq_comm]
  exact and_congr_right fun same => by rw [same, HasProgram]

/-- A path of several components is found as it is given or not at all. -/
theorem findProgram?_of_several (several : 1 < program.components.length) :
    w.findProgram? program = some path ↔ w.Spells program path ∧ w.HasProgram path := by
  rw [findProgram?, programCandidates, if_pos several]
  cases absolute : program.isAbsolute with
  | true => rw [if_pos rfl, find?_only, spells_of_isAbsolute absolute]
  | false =>
    rw [if_neg Bool.false_ne_true, spells_of_relative absolute]
    cases w.workingPath with
    | error fault => simp
    | ok here =>
      dsimp only
      rw [find?_only]
      simp only [Except.ok.injEq, exists_eq_left']

/-- A bare name is found in the first directory of the search path that holds it. -/
theorem findProgram?_of_bare (bare : program.components.length ≤ 1) :
    w.findProgram? program = some path ↔ w.FirstOnSearchPath program path := by
  rw [findProgram?, programCandidates, if_neg (Nat.not_lt.mpr bare)]
  cases known : w.environment.get? "PATH" with
  | none =>
    refine ⟨nofun, fun first => ?_⟩
    obtain ⟨_, _, _, _, given, _⟩ := first.found
    cases known.symm.trans given
  | some searchPath =>
    have missed (directory : Path) : (!w.isExecutable (w.entry directory program)) = true ↔
        ¬ w.HasProgram (w.entry directory program) := by
      rw [Bool.not_eq_true', ← Bool.not_eq_true, isExecutable_iff, HasProgram]
    dsimp only
    rw [List.find?_map, Option.map_eq_some_iff]
    simp only [List.find?_eq_some_iff_append]
    constructor
    · rintro ⟨directory, ⟨file, before, behind, order, others⟩, rfl⟩
      refine ⟨⟨searchPath, before, directory, behind, known, order, rfl, ?_⟩, ?_⟩
      · exact fun earlier mem => (missed earlier).mp (others earlier mem)
      · exact isExecutable_iff.mp file
    · rintro ⟨⟨_, before, directory, behind, given, order, rfl, others⟩, file⟩
      cases known.symm.trans given
      refine ⟨directory, ⟨isExecutable_iff.mpr file, before, behind, order, ?_⟩, rfl⟩
      exact fun earlier mem => (missed earlier).mpr (others earlier mem)

/-- What is found, whatever the program is given by. -/
theorem findProgram?_eq_some : w.findProgram? program = some path ↔ w.Finds program path := by
  by_cases several : 1 < program.components.length
  · rw [findProgram?_of_several several]
    refine ⟨fun ⟨spelled, file⟩ => .given several spelled file, fun finds => ?_⟩
    cases finds with
    | given _ spelled file => exact ⟨spelled, file⟩
    | searched bare _ => exact absurd several (Nat.not_lt.mpr bare)
  · rw [findProgram?_of_bare (Nat.not_lt.mp several)]
    refine ⟨.searched (Nat.not_lt.mp several), fun finds => ?_⟩
    cases finds with
    | given own _ _ => exact absurd own several
    | searched _ first => exact first

/-! ## A program given by a path -/

theorem workingPath_eq_ok {here : Path} (working : w.workingPath = .ok here) :
    w.files.isDirectoryAt w.workingDirectory = true ∧ here = pathOf w.workingDirectory := by
  rw [workingPath] at working
  split at working
  · next stands => exact ⟨stands, (Except.ok.inj working).symm⟩
  · cases working

/-- The path that is found leads where the steps of the given one do that go on. -/
theorem locateSteps_of_spells (wf : w.files.WellFormed) (nonempty : program.raw ≠ "")
    (spelled : w.Spells program path) (found : w.locate path true = .ok location) :
    w.locateSteps program.isAbsolute true (Step.plain program.steps) = .ok location := by
  have led := locateSteps_plain (locate_eq_ok.mp found).2
  cases spelled with
  | absolute _ => exact led
  | relative relative working =>
    obtain ⟨stands, rfl⟩ := workingPath_eq_ok working
    obtain ⟨entries, directory⟩ := Directory.isDirectoryAt_iff.mp stands
    have named := (wf.get? directory).2
    have top := isAbsolute_pathOf w.workingDirectory
    have above := Path.raw_ne_empty_of_isAbsolute top
    have components := Path.components_below relative above
    have absolute := (Path.segments_join_relative relative above).1.trans top
    -- the steps that go on are those to the working directory and then those of the given path
    have plain := congrArg Step.plain (Path.steps_join_relative relative above nonempty)
    rw [Path.plain_steps, ← components, ← Path.plain_steps, Step.plain_append,
      segmentSteps_pathOf named, Step.plain_names] at plain
    rwa [Path.isAbsolute_congr components, absolute, plain, locateSteps_working stands named,
      ← relative] at led

/-- The path that is found leads where the given one does, if that one leads anywhere. -/
theorem eq_of_locate_spelled (wf : w.files.WellFormed) (spelled : w.Spells program path)
    (located : w.locate program true = .ok location) (found : w.locate path true = .ok other) :
    other = location := by
  have led := locateSteps_of_spells wf (raw_ne_empty_of_locate located) spelled found
  exact Except.ok.inj (led.symm.trans (locateSteps_plain (locate_eq_ok.mp located).2))

/-- The environment does not matter to a program that is given by a path. -/
theorem findProgram?_environment (several : 1 < program.components.length) (env : Environment) :
    { w with environment := env }.findProgram? program = w.findProgram? program := by
  rw [findProgram?, findProgram?, programCandidates, programCandidates, if_pos several,
    if_pos several]
  rfl

end World

end BuildRunner
