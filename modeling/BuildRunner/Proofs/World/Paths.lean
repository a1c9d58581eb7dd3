import BuildRunner.Proofs.Path.Prefix
import BuildRunner.Proofs.Tree.Steps
import BuildRunner.Proofs.World.Frame

/-!
# Different paths that lead to one place

The steps of a path are given by its components, but for steps that stay. So two paths with the same
components lead to the same place, unless one of them asks for a directory at its end.

Three more ways to write a place are compared. Going down by names from a path that leads to a
directory leads to what stands below it. A relative path leads to where it leads when it is joined
to the path of the working directory. And a path that leads to a directory does so in every larger
world.

A name joined to a path that leads to a directory stands for the entry of this name there, so it
names a child of this directory, whatever the path looks like.
-/

namespace BuildRunner

variable {p q : Path} {name : RawText} {way base location : Location} {follow : Bool} {w w' : World}

/-! ## The steps of a path -/

namespace Path

/-- The steps of the segments, without what a slash at the end asks for. -/
def segmentSteps (p : Path) : List Step :=
  (Path.filled p.segments).map Step.ofSegment

theorem steps_eq (p : Path) :
    p.steps = p.segmentSteps ∧ p.raw.bytes.getLast? ≠ some Path.slash ∨
      p.steps = p.segmentSteps ++ [.stay] ∧ p.raw.bytes.getLast? = some Path.slash := by
  by_cases slash : p.raw.bytes.getLast? = some Path.slash
  · exact .inr ⟨by rw [steps, if_pos slash]; rfl, slash⟩
  · exact .inl ⟨by rw [steps, if_neg slash]; rfl, slash⟩

/-- Joining a relative path adds its segments. -/
theorem filled_segments_join (relative : q.isAbsolute = false) (nonempty : p.raw ≠ "") :
    filled (p.join q).segments = filled p.segments ++ filled q.segments := by
  obtain ⟨_, front, _, segments, joined⟩ := segments_join_relative relative nonempty
  have kept : filled p.segments = filled front := by
    rcases segments with same | closed
    · rw [same]
    · rw [closed, filled_append, filled_empty, List.append_nil]
  rw [kept, joined, filled_append]

/-- Joining a relative path adds its steps. -/
theorem segmentSteps_join (relative : q.isAbsolute = false) (nonempty : p.raw ≠ "") :
    (p.join q).segmentSteps = p.segmentSteps ++ q.segmentSteps := by
  rw [segmentSteps, filled_segments_join relative nonempty, List.map_append, segmentSteps,
    segmentSteps]

/-- The path joined to another one decides about a slash at the end. -/
theorem steps_join_relative (relative : q.isAbsolute = false) (nonempty : p.raw ≠ "")
    (more : q.raw ≠ "") : (p.join q).steps = p.segmentSteps ++ q.steps := by
  have ends : (p.join q).raw.bytes.getLast? = q.raw.bytes.getLast? := by
    rw [join_of_relative nonempty relative, RawText.getLast?_bytes_append _ more]
  have named := segmentSteps_join relative nonempty
  rcases (p.join q).steps_eq with ⟨whole, slash⟩ | ⟨whole, slash⟩
  · rw [ends] at slash
    rcases q.steps_eq with ⟨own, _⟩ | ⟨_, other⟩
    · rw [whole, named, own]
    · exact absurd other slash
  · rw [ends] at slash
    rcases q.steps_eq with ⟨_, other⟩ | ⟨own, _⟩
    · exact absurd slash other
    · rw [whole, named, own, List.append_assoc]

theorem segmentSteps_name (named : IsSegment name) :
    (Path.mk name).segmentSteps = [.name name] := by
  have single : (Path.mk name).segments = [name] := pieces_name named
  simp [segmentSteps, single, named.ne_empty, named.ofSegment]

theorem steps_name (named : IsSegment name) : (Path.mk name).steps = [.name name] := by
  rcases (Path.mk name).steps_eq with ⟨own, _⟩ | ⟨_, slash⟩
  · rw [own, segmentSteps_name named]
  · exact absurd (List.mem_of_getLast? slash) named.no_slash

/-- Going down by names adds a step for each of them. -/
theorem steps_descend (named : ∀ name ∈ way, IsName name) (more : way ≠ [])
    (nonempty : p.raw ≠ "") :
    (p.descend way).steps = p.segmentSteps ++ way.map .name ∧
      (p.descend way).isAbsolute = p.isAbsolute := by
  induction way generalizing p with
  | nil => exact absurd rfl more
  | cons name way ih =>
    obtain ⟨own, others⟩ := List.forall_mem_cons.mp named
    have segment := own.toIsSegment
    have relative := isAbsolute_name segment
    have absolute := (segments_join_relative relative nonempty).1
    rw [descend_cons, List.map_cons]
    by_cases last : way = []
    · subst last
      refine ⟨?_, absolute⟩
      rw [descend_nil, steps_join_relative relative nonempty own.ne_empty, steps_name segment]
      rfl
    · obtain ⟨steps, start⟩ := ih others last (raw_join_ne_empty nonempty _)
      rw [steps, segmentSteps_join relative nonempty, segmentSteps_name segment, List.append_assoc]
      exact ⟨rfl, start.trans absolute⟩

/-! ## Components and steps -/

/-- The step that a component asks for, if it is not the start of a path. -/
def Component.step? : Component → Option Step
  | .root => none
  | .here => none
  | .up => some .up
  | .name n => some (.name n)

theorem step?_componentOf {segment : RawText} (named : isFiller segment = false) :
    (componentOf segment).step? = some (Step.ofSegment segment) := by
  have notHere : segment ≠ "." := by
    rintro rfl
    cases named
  rw [componentOf, Step.ofSegment, if_neg notHere]
  split <;> rfl

/-- A slash at the end adds no step that goes on. -/
theorem plain_segmentSteps (p : Path) : Step.plain p.segmentSteps = Step.plain p.steps := by
  rcases p.steps_eq with ⟨same, _⟩ | ⟨closed, _⟩
  · rw [same]
  · rw [closed, Step.plain_append]
    exact (List.append_nil _).symm

/-- The steps that do not stay are those of the components. -/
theorem plain_steps (p : Path) : Step.plain p.steps = p.components.filterMap Component.step? := by
  have lead : p.lead.toList.filterMap Component.step? = [] := by
    rcases p.lead_cases with none | root | here
    · rw [none]; rfl
    · rw [root]; rfl
    · rw [here]; rfl
  have segments (segments : List RawText) :
      Step.plain ((Path.filled segments).map Step.ofSegment) =
        (bodyComponents segments).filterMap Component.step? := by
    induction segments with
    | nil => rfl
    | cons segment segments ih =>
      by_cases empty : segment = ""
      · subst empty
        exact ih
      rw [filled_cons empty, List.map_cons]
      by_cases stays : segment = "."
      · subst stays
        exact ih
      have named : isFiller segment = false := by simp [isFiller, empty, stays]
      have moves : Step.ofSegment segment ≠ .stay := by
        rw [Step.ofSegment, if_neg stays]
        split <;> simp
      rw [bodyComponents, List.filter_cons_of_pos (by simp [named]), List.map_cons,
        List.filterMap_cons_some (step?_componentOf named), Step.plain,
        List.filter_cons_of_pos (by simpa using moves)]
      exact congrArg _ ih
  rw [← plain_segmentSteps, segmentSteps, segments, components_eq, List.filterMap_append, lead,
    List.nil_append]

/-- A path that ends in a segment that names something does not ask to stay. -/
theorem getLast?_steps (last : p.segments.getLast? = some name) (named : isFiller name = false) :
    p.steps.getLast? ≠ some .stay := by
  have nonempty : name ≠ "" := by
    rintro rfl
    cases named
  have notHere : name ≠ "." := by
    rintro rfl
    cases named
  rcases p.steps_eq with ⟨own, _⟩ | ⟨_, slash⟩
  · obtain ⟨front, segments⟩ := List.getLast?_eq_some_iff.mp last
    have ends : p.segmentSteps = (filled front).map Step.ofSegment ++ [Step.ofSegment name] := by
      simp [segmentSteps, segments, nonempty]
    rw [own, ends, List.getLast?_concat, Step.ofSegment, if_neg notHere]
    split <;> simp
  · obtain ⟨front, _, segments⟩ := exists_eq_append_slash slash
    rw [segments, List.getLast?_concat] at last
    exact absurd (Option.some.inj last).symm nonempty

/-- The components tell whether a path is absolute. -/
theorem isAbsolute_iff (p : Path) : p.isAbsolute = true ↔ .root ∈ p.components := by
  have behind : .root ∉ bodyComponents p.segments := by
    intro mem
    obtain ⟨segment, _, own⟩ := List.mem_map.mp mem
    rw [componentOf] at own
    split at own <;> cases own
  rw [components_eq, List.mem_append, lead]
  cases p.isAbsolute with
  | true => simp
  | false =>
    simp only [Bool.false_eq_true, if_false, behind, or_false, false_iff]
    split <;> simp

theorem isAbsolute_congr (same : p.components = q.components) : p.isAbsolute = q.isAbsolute := by
  rw [Bool.eq_iff_iff, isAbsolute_iff, isAbsolute_iff, same]

end Path

/-! ## Paths in a world -/

namespace World

/-- Paths with the same components lead to the same place, if none of them asks to stay there. -/
theorem locateSteps_congr (same : p.components = q.components)
    (moves : p.steps.getLast? ≠ some .stay) (moves' : q.steps.getLast? ≠ some .stay) :
    w.locateSteps p.isAbsolute follow p.steps = w.locateSteps q.isAbsolute follow q.steps := by
  have resolve (here : Location) : w.files.resolve follow linkLimit here p.steps =
      w.files.resolve follow linkLimit here q.steps := by
    rw [Directory.resolve_eq_plain _ _ _ _ moves, Directory.resolve_eq_plain _ _ _ _ moves',
      Path.plain_steps, Path.plain_steps, same]
  rw [locateSteps, locateSteps, Path.isAbsolute_congr same, resolve, resolve]

theorem raw_ne_empty_of_locate (located : w.locate p follow = .ok location) : p.raw ≠ "" := by
  intro empty
  obtain ⟨plain, _⟩ := locate_eq_ok.mp located
  simp [badPath, empty] at plain

/-- A path that leads somewhere leads there also without the slash it may end in. -/
theorem locateSteps_segmentSteps (located : w.locate p true = .ok base) :
    w.locateSteps p.isAbsolute true p.segmentSteps = .ok base := by
  obtain ⟨_, located⟩ := locate_eq_ok.mp located
  rcases p.steps_eq with ⟨own, _⟩ | ⟨closed, _⟩
  · rwa [own] at located
  · rw [closed] at located
    obtain ⟨here, start, reached⟩ := locateSteps_eq_ok.mp located
    exact locateSteps_eq_ok.mpr ⟨here, start,
      Directory.resolve_of_resolve_stay (isDirectoryAt_of_origin? start) reached⟩

/-- Steps that lead somewhere lead there also without those that stay. -/
theorem locateSteps_plain {absolute : Bool} {steps : List Step}
    (reached : w.locateSteps absolute true steps = .ok location) :
    w.locateSteps absolute true (Step.plain steps) = .ok location := by
  obtain ⟨here, start, reached⟩ := locateSteps_eq_ok.mp reached
  exact locateSteps_eq_ok.mpr
    ⟨here, start, Directory.resolve_plain (isDirectoryAt_of_origin? start) reached⟩

/-- Going down by names from a path that leads to a directory leads to what stands below it, if that
is no link. -/
theorem locateSteps_descend {node : Node} (named : ∀ name ∈ way, IsName name) (more : way ≠ [])
    (located : w.locate p true = .ok base) (found : w.files.get? (base ++ way) = some node)
    (kind : node.kind ≠ .link) (follow : Bool) :
    w.locateSteps (p.descend way).isAbsolute follow (p.descend way).steps = .ok (base ++ way) := by
  obtain ⟨steps, absolute⟩ := Path.steps_descend named more (raw_ne_empty_of_locate located)
  obtain ⟨here, start, reached⟩ := locateSteps_eq_ok.mp (locateSteps_segmentSteps located)
  have stands := isDirectoryAt_of_origin? start
  obtain ⟨sub, directory⟩ := Directory.exists_directory_of_get?_append more found
  obtain ⟨fewer, continued⟩ := Directory.resolve_append_of_eq_ok stands reached
    (Directory.isDirectoryAt_iff.mpr ⟨sub, directory⟩)
  rw [absolute, steps]
  refine locateSteps_eq_ok.mpr ⟨here, start, ?_⟩
  rw [continued follow _ (by simpa using more)]
  exact Directory.resolve_names named _ found kind

/-! ## Directories -/

theorem isDirectory_iff_node : w.isDirectory p = true ↔
    ∃ entries, w.node p true = .ok (.directory entries) := by
  rw [isDirectory]
  split
  · next entries found => simp [found]
  · next other => simpa using other

theorem isDirectory_iff : w.isDirectory p = true ↔
    ∃ location, w.locate p true = .ok location ∧ w.files.isDirectoryAt location = true := by
  rw [isDirectory_iff_node]
  constructor
  · rintro ⟨entries, found⟩
    obtain ⟨location, located, found⟩ := node_eq_ok.mp found
    exact ⟨location, located, Directory.isDirectoryAt_iff.mpr ⟨entries, found⟩⟩
  · rintro ⟨location, located, stands⟩
    obtain ⟨entries, found⟩ := Directory.isDirectoryAt_iff.mp stands
    exact ⟨entries, node_eq_ok.mpr ⟨location, located, found⟩⟩

theorem PartOf.isDirectory (h : w.PartOf w') (stands : w.isDirectory p = true) :
    w'.isDirectory p = true := by
  obtain ⟨location, located, directory⟩ := isDirectory_iff.mp stands
  exact isDirectory_iff.mpr ⟨location, h.locate_eq_ok located, h.files.isDirectoryAt directory⟩

theorem badPath_eq_none : badPath p = none ↔
    0 ∉ p.raw.bytes ∧ p.raw ≠ "" ∧ p.raw.bytes.length < pathLimit := by
  rw [badPath]
  by_cases nul : 0 ∈ p.raw.bytes
  · simp [nul]
  · by_cases empty : p.raw = ""
    · simp [empty]
    · by_cases long : pathLimit ≤ p.raw.bytes.length
      · simp [nul, empty, long, Nat.not_lt.mpr long]
      · simp [nul, empty, long, Nat.lt_of_not_le long]

/-- What is no path is none behind another one either, unless it is empty. -/
theorem badPath_of_join {base : Path} (nonempty : p.raw ≠ "")
    (plain : badPath (base.join p) = none) : badPath p = none := by
  cases absolute : p.isAbsolute with
  | true => rwa [Path.join_of_isAbsolute base absolute] at plain
  | false =>
    by_cases empty : base.raw = ""
    · rwa [Path.join_of_empty empty] at plain
    · rw [Path.join_of_relative empty absolute] at plain
      obtain ⟨noNul, _, short⟩ := badPath_eq_none.mp plain
      refine badPath_eq_none.mpr ⟨fun nul => noNul ?_, nonempty, Nat.lt_of_le_of_lt ?_ short⟩
      · exact List.mem_append_right _ nul
      · rw [RawText.bytes_append, List.length_append]
        exact Nat.le_add_left _ _

/-! ## The path of a location -/

theorem isAbsolute_pathOf (location : Location) : (pathOf location).isAbsolute = true := by
  simp [pathOf, Path.isAbsolute]

/-- The segments of the path of a location are its names, behind the empty one before the slash. -/
theorem segments_pathOf (more : location ≠ [])
    (plain : ∀ name ∈ location, Path.slash ∉ name.bytes) :
    (pathOf location).segments = ("" : RawText) :: location := by
  have front : (pathOf location).segments = RawText.pieces Path.slash "" ++
      RawText.pieces Path.slash (RawText.intercalate "/" location) :=
    Path.pieces_append_slash "" _
  rw [front, Path.pieces_intercalate more plain]
  rfl

/-- The path of a location goes down by its names. -/
theorem segmentSteps_pathOf (named : ∀ name ∈ location, IsName name) :
    (pathOf location).segmentSteps = location.map .name := by
  have segments : Path.filled (pathOf location).segments = location := by
    by_cases top : location = []
    · subst top
      rfl
    · rw [segments_pathOf top fun name mem => (named name mem).no_slash]
      exact List.filter_eq_self.mpr fun name mem => decide_eq_true (named name mem).ne_empty
  rw [Path.segmentSteps, segments]
  exact List.map_congr_left fun name mem => (named name mem).ofSegment

/-- Steps from the working directory lead where they lead behind the way to that directory. -/
theorem locateSteps_working (stands : w.files.isDirectoryAt w.workingDirectory = true)
    (named : ∀ name ∈ w.workingDirectory, IsName name) (follow : Bool) (steps : List Step) :
    w.locateSteps true follow (w.workingDirectory.map .name ++ steps) =
      w.locateSteps false follow steps := by
  have working : w.files.advance follow [] (w.workingDirectory.map .name ++ steps) =
      w.files.advance follow w.workingDirectory steps :=
    Directory.advance_names named steps stands
  rw [locateSteps, locateSteps, if_pos rfl, if_neg Bool.false_ne_true, if_pos stands,
    Directory.resolve, Directory.resolve, working]

/-- A path leads to where it leads behind the path of the working directory. -/
theorem locate_join_working (stands : w.files.isDirectoryAt w.workingDirectory = true)
    (named : ∀ name ∈ w.workingDirectory, IsName name) (nonempty : p.raw ≠ "")
    (plain : badPath ((pathOf w.workingDirectory).join p) = none) :
    w.locate ((pathOf w.workingDirectory).join p) follow = w.locate p follow := by
  have own := badPath_of_join nonempty plain
  cases absolute : p.isAbsolute with
  | true => rw [Path.join_of_isAbsolute _ absolute]
  | false =>
    have top := isAbsolute_pathOf w.workingDirectory
    have above := Path.raw_ne_empty_of_isAbsolute top
    have joined := (Path.segments_join_relative absolute above).1.trans top
    rw [locate, locate, plain, own]
    dsimp only
    rw [Path.steps_join_relative absolute above nonempty, segmentSteps_pathOf named, joined,
      absolute, locateSteps_working stands named]

/-- A directory that was found behind the path of the working directory is found without it. -/
theorem isDirectory_of_join_working (stands : w.files.isDirectoryAt w.workingDirectory = true)
    (named : ∀ name ∈ w.workingDirectory, IsName name) (nonempty : p.raw ≠ "")
    (directory : w.isDirectory ((pathOf w.workingDirectory).join p) = true) :
    w.isDirectory p = true := by
  obtain ⟨location, located, found⟩ := isDirectory_iff.mp directory
  refine isDirectory_iff.mpr ⟨location, ?_, found⟩
  rwa [locate_join_working stands named nonempty (locate_eq_ok.mp located).1] at located

/-! ## Children -/

/-- A name joined to a path that leads somewhere stands for the entry of this name there. -/
theorem locate_join (named : IsSegment name) (located : w.locate p true = .ok base)
    (spot : w.locate (p.join ⟨name⟩) false = .ok location) : location = base ++ [name] := by
  have nonempty := raw_ne_empty_of_locate located
  have absolute := (Path.segments_join named nonempty).1
  have steps := Path.steps_join_relative (Path.isAbsolute_name named) nonempty named.ne_empty
  have led := locateSteps_segmentSteps located
  obtain ⟨_, spot⟩ := locate_eq_ok.mp spot
  rw [absolute, steps, Path.steps_name named] at spot
  obtain ⟨parent, fewer, up, _, further⟩ :=
    locateSteps_append_cases (List.cons_ne_nil _ _) spot
  obtain rfl : parent = base := Except.ok.inj (up.symm.trans led)
  exact (Directory.eq_of_resolve_name further).2

/-- The place of a name joined to a path that leads to a directory is the entry of this name there,
whether there is one or not, unless it is too long for a name. -/
theorem place_join (named : IsSegment name) (located : w.locate p true = .ok base)
    (stands : w.files.isDirectoryAt base = true) (plain : badPath (p.join ⟨name⟩) = none) :
    w.place (p.join ⟨name⟩) = if nameLimit < name.bytes.length then .error .nameTooLong
      else .ok (base ++ [name], w.files.get? (base ++ [name])) := by
  have nonempty := raw_ne_empty_of_locate located
  have absolute := (Path.segments_join named nonempty).1
  have own : Path.filled (p.join ⟨name⟩).segments = Path.filled p.segments ++ [name] := by
    have single : (Path.mk name).segments = [name] := Path.pieces_name named
    rw [Path.filled_segments_join (Path.isAbsolute_name named) nonempty, single,
      Path.filled_singleton named.ne_empty]
  have parent := locateSteps_segmentSteps located
  rw [Path.segmentSteps] at parent
  exact place_of_segments plain own named.ofSegment (absolute ▸ parent) stands

/-- A path stands for a child of a directory that is there: behind the path of the directory it has
one more name, and the place it stands for is the entry of this name in the directory. There is no
such place if the name is too long for an entry. -/
structure Child (w : World) (directory p : Path) (name : RawText) : Prop where
  named : IsSegment name
  components : p.components = directory.components ++ [.name name]
  place : ∃ base, w.locate directory true = .ok base ∧ w.files.isDirectoryAt base = true ∧
    (badPath p = none → w.place p = if nameLimit < name.bytes.length then .error .nameTooLong
      else .ok (base ++ [name], w.files.get? (base ++ [name])))

theorem Child.of_join (named : IsSegment name) (stands : w.isDirectory p = true) :
    w.Child p (p.join ⟨name⟩) name := by
  obtain ⟨base, located, directory⟩ := isDirectory_iff.mp stands
  exact ⟨named, p.components_join named, base, located, directory,
    place_join named located directory⟩

end World

end BuildRunner
