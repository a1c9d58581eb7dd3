import BuildRunner.Proofs.Text.Utf8
import BuildRunner.Proofs.Tree.WellFormed
import BuildRunner.World

/-!
# Where a path leads

Following a path goes up to the first link and on from there, so what is said of it is said of the
steps up to a link first and then carried through the links. A link stands in a directory, and the
steps of its target take the place of those up to it, before the steps still to take.

Three facts are proved so. Following the last step matters only where a link stands: where it is
left unfollowed and something else is found, following it leads to the same. Wherever a path leads,
something stands. And what is no directory is found only by a name, the last step of the path, which
is the last name of its location: the last step stays the last one as long as it is not itself a
link that is followed.
-/

namespace BuildRunner

/-! ## Directories on the way -/

namespace Directory

variable {top : Directory} {here location : Location} {node : Node}

theorem isDirectoryAt_iff : top.isDirectoryAt location = true ↔
    ∃ sub, top.get? location = some (.directory sub) := by
  rw [isDirectoryAt, Option.any_eq_true]
  constructor
  · rintro ⟨node, found, kind⟩
    cases node with
    | directory sub => exact ⟨sub, found⟩
    | file content executable => cases kind
    | link target => cases kind
  · rintro ⟨sub, found⟩
    exact ⟨_, found, rfl⟩

theorem isDirectoryAt_nil (top : Directory) : top.isDirectoryAt [] = true :=
  isDirectoryAt_iff.mpr ⟨top, get?_nil top⟩

/-- Whatever stands below a location stands below a directory. -/
theorem exists_directory_of_get?_append {base below : Location} (nonempty : below ≠ [])
    (h : top.get? (base ++ below) = some node) :
    ∃ sub, top.get? base = some (.directory sub) := by
  induction base generalizing top with
  | nil => exact ⟨top, get?_nil top⟩
  | cons name base ih =>
    rw [List.cons_append, get?_cons] at h
    obtain ⟨entry, found, h⟩ := Option.bind_eq_some_iff.mp h
    have deeper : base ++ below ≠ [] := by simp [nonempty]
    rw [get?_cons, found, Option.bind_some]
    cases entry with
    | directory sub => exact ih h
    | file content executable => simp [Node.get?, deeper] at h
    | link target => simp [Node.get?, deeper] at h

/-- Above a directory there is a directory, above the top the top itself. -/
theorem isDirectoryAt_dropLast (h : top.isDirectoryAt here = true) :
    top.isDirectoryAt here.dropLast = true := by
  by_cases nonempty : here = []
  · rwa [nonempty] at h ⊢
  · obtain ⟨sub, found⟩ := isDirectoryAt_iff.mp h
    rw [← List.dropLast_concat_getLast nonempty] at found
    exact isDirectoryAt_iff.mpr (exists_directory_of_get?_append (List.cons_ne_nil _ []) found)

end Directory

/-! ## Following the last step or not -/

namespace Directory

variable (top : Directory)

/-- Up to the first link, following the last step changes only what is said about a link there. -/
theorem advance_follow (here : Location) (steps : List Step) :
    top.advance true here steps = top.advance false here steps ∨
      ∃ location target, top.advance false here steps = .arrived location ∧
        top.get? location = some (.link target) := by
  fun_induction advance top true here steps with
  | case1 here => exact .inl rfl
  | case2 here rest ih => exact ih
  | case3 here rest ih => exact ih
  | case4 here name rest long => simp [advance, long]
  | case5 here name rest short there missing => simp [advance, short, there, missing]
  | case6 here name rest short there sub found ih => simpa [advance, short, there, found] using ih
  | case7 here name short there content executable found =>
    simp [advance, short, there, found]
  | case8 here name rest short there content executable found more =>
    simp [advance, short, there, found, more]
  | case9 here name rest short there target found unfollowed => simp at unfollowed
  | case10 here name rest short there target found followed =>
    by_cases last : rest = []
    · right
      exact ⟨there, target, by simp [advance, short, there, found, last], found⟩
    · left
      simp [advance, short, there, found, last]

/-- Following the last step changes where a path leads only if it leads to a link. -/
theorem resolve_follow (links : Nat) (here : Location) (steps : List Step) :
    top.resolve true links here steps = top.resolve false links here steps ∨
      ∃ location target, top.resolve false links here steps = .ok location ∧
        top.get? location = some (.link target) := by
  induction links generalizing here steps with
  | zero =>
    rcases top.advance_follow here steps with same | ⟨location, target, arrived, found⟩
    · left
      rw [resolve, resolve, same]
    · right
      exact ⟨location, target, by rw [resolve, arrived], found⟩
  | succ links ih =>
    rcases top.advance_follow here steps with same | ⟨location, target, arrived, found⟩
    · rw [resolve, resolve, same]
      cases top.advance false here steps with
      | arrived location => exact .inl rfl
      | refused fault => exact .inl rfl
      | link base target rest => exact ih _ _
    · right
      exact ⟨location, target, by rw [resolve, arrived], found⟩

end Directory

/-! ## Links on the way -/

namespace Directory

variable {top : Directory} {here location base : Location} {steps rest : List Step}
  {target : RawText} {follow : Bool}

/-- A link on the way stands in a directory, and behind it come the steps not yet taken. -/
theorem of_advance_eq_link (start : top.isDirectoryAt here = true)
    (h : top.advance follow here steps = .link base target rest) :
    top.isDirectoryAt base = true ∧ rest <:+ steps ∧ (follow = false → rest ≠ []) := by
  fun_induction advance top follow here steps with
  | case1 => cases h
  | case2 here rest ih =>
    obtain ⟨stands, suffix, more⟩ := ih start h
    exact ⟨stands, suffix.trans (List.suffix_cons _ _), more⟩
  | case3 here rest ih =>
    obtain ⟨stands, suffix, more⟩ := ih (isDirectoryAt_dropLast start) h
    exact ⟨stands, suffix.trans (List.suffix_cons _ _), more⟩
  | case4 => cases h
  | case5 => cases h
  | case6 here name rest short there sub found ih =>
    obtain ⟨stands, suffix, more⟩ := ih (isDirectoryAt_iff.mpr ⟨sub, found⟩) h
    exact ⟨stands, suffix.trans (List.suffix_cons _ _), more⟩
  | case7 => cases h
  | case8 => cases h
  | case9 => cases h
  | case10 here name rest short there target found followed =>
    cases h
    refine ⟨start, List.suffix_cons _ _, ?_⟩
    rintro rfl rfl
    exact followed rfl

/-- The directory that the target of a link is followed from. -/
theorem isDirectoryAt_origin (stands : top.isDirectoryAt base = true) (target : Path) :
    top.isDirectoryAt (if target.isAbsolute then [] else base) = true := by
  split
  · exact isDirectoryAt_nil top
  · exact stands

/-- What holds wherever steps lead before any link holds wherever they lead. `R` relates steps to
where they lead, and may look at the last step only, since the target of a link replaces those
before it. -/
theorem resolve_induction {R : List Step → Location → Prop}
    (arrived : ∀ here steps location, top.isDirectoryAt here = true →
      top.advance follow here steps = .arrived location → R steps location)
    (link : ∀ before rest steps location, rest <:+ steps → (follow = false → rest ≠ []) →
      R (before ++ rest) location → R steps location)
    {links : Nat} (start : top.isDirectoryAt here = true)
    (h : top.resolve follow links here steps = .ok location) : R steps location := by
  induction links generalizing here steps with
  | zero =>
    rw [resolve] at h
    split at h
    · next reached =>
      cases h
      exact arrived _ _ _ start reached
    · cases h
    · cases h
  | succ links ih =>
    rw [resolve] at h
    split at h
    · next reached =>
      cases h
      exact arrived _ _ _ start reached
    · cases h
    · next met =>
      obtain ⟨stands, suffix, more⟩ := of_advance_eq_link start met
      exact link _ _ _ _ suffix more (ih (isDirectoryAt_origin stands _) h)

end Directory

/-! ## What stands where a path leads -/

namespace Directory

variable {top : Directory} {here location : Location} {steps : List Step} {follow : Bool}
  {node : Node}

/-- Steps that arrive before any link arrive at a node, and if it is no directory by its name. -/
theorem of_advance_eq_arrived (start : top.isDirectoryAt here = true)
    (h : top.advance follow here steps = .arrived location) :
    ∃ node, top.get? location = some node ∧ (node.kind ≠ .directory →
      ∃ name, steps.getLast? = some (.name name) ∧ location.getLast? = some name) := by
  have later {step : Step} {rest : List Step} {name : RawText}
      (last : rest.getLast? = some (.name name)) :
      (step :: rest).getLast? = some (.name name) := by
    rw [List.getLast?_cons, last]
    rfl
  fun_induction advance top follow here steps with
  | case1 here =>
    cases h
    obtain ⟨sub, found⟩ := isDirectoryAt_iff.mp start
    exact ⟨_, found, fun kind => absurd rfl kind⟩
  | case2 here rest ih =>
    obtain ⟨node, found, named⟩ := ih start h
    refine ⟨node, found, fun kind => ?_⟩
    obtain ⟨name, last, own⟩ := named kind
    exact ⟨name, later last, own⟩
  | case3 here rest ih =>
    obtain ⟨node, found, named⟩ := ih (isDirectoryAt_dropLast start) h
    refine ⟨node, found, fun kind => ?_⟩
    obtain ⟨name, last, own⟩ := named kind
    exact ⟨name, later last, own⟩
  | case4 => cases h
  | case5 => cases h
  | case6 here name rest short there sub found ih =>
    obtain ⟨node, found, named⟩ := ih (isDirectoryAt_iff.mpr ⟨sub, found⟩) h
    refine ⟨node, found, fun kind => ?_⟩
    obtain ⟨name, last, own⟩ := named kind
    exact ⟨name, later last, own⟩
  | case7 here name short there content executable found =>
    obtain rfl : here ++ [name] = location := Progress.arrived.inj h
    exact ⟨_, found, fun _ => ⟨name, rfl, List.getLast?_concat⟩⟩
  | case8 => cases h
  | case9 here name rest short there target found unfollowed =>
    obtain rfl : here ++ [name] = location := Progress.arrived.inj h
    obtain rfl : rest = [] := of_decide_eq_true (Bool.and_eq_true_iff.mp unfollowed).1
    exact ⟨_, found, fun _ => ⟨name, rfl, List.getLast?_concat⟩⟩
  | case10 => cases h

/-- Steps that are not refused lead to a node. -/
theorem exists_of_resolve_eq_ok {links : Nat} (start : top.isDirectoryAt here = true)
    (h : top.resolve follow links here steps = .ok location) :
    ∃ node, top.get? location = some node := by
  refine resolve_induction (R := fun _ location => ∃ node, top.get? location = some node) ?_ ?_
    start h
  · intro here steps location start reached
    obtain ⟨node, found, _⟩ := of_advance_eq_arrived start reached
    exact ⟨node, found⟩
  · intro before rest steps location suffix more found
    exact found

/-- Where steps lead to what is no directory, and a link in the last one is not followed, the last
one is its name. -/
theorem getLast?_of_resolve_eq_ok {links : Nat} (start : top.isDirectoryAt here = true)
    (h : top.resolve false links here steps = .ok location)
    (found : top.get? location = some node) (kind : node.kind ≠ .directory) :
    ∃ name, steps.getLast? = some (.name name) ∧ location.getLast? = some name := by
  refine resolve_induction (R := fun steps location => top.get? location = some node →
    ∃ name, steps.getLast? = some (.name name) ∧ location.getLast? = some name) ?_ ?_ start h found
  · intro here steps location start reached found
    obtain ⟨other, found', named⟩ := of_advance_eq_arrived start reached
    cases found.symm.trans found'
    exact named kind
  · -- the steps still to take are some, so the last of them is the last of all
    intro before rest steps location suffix more named found
    obtain ⟨name, last, own⟩ := named found
    obtain ⟨front, rfl⟩ := suffix
    have ends : rest.getLast? = some (rest.getLast (more rfl)) := List.getLast?_eq_some_getLast _
    rw [List.getLast?_append, ends, Option.some_or] at last ⊢
    exact ⟨name, last, own⟩

end Directory

/-! ## The name a path ends in -/

/-- The name that the steps of a path end in is the file name of the path. -/
theorem Path.fileName?_of_getLast?_steps {p : Path} {name : RawText}
    (h : p.steps.getLast? = some (.name name)) : p.fileName? = some name := by
  rw [steps] at h
  split at h
  · simp at h
  · rw [List.getLast?_map, Option.map_eq_some_iff] at h
    obtain ⟨last, hlast, step⟩ := h
    obtain ⟨front, segments⟩ := List.getLast?_eq_some_iff.mp hlast
    have nonempty : last ≠ "" := by
      have mem : last ∈ Path.filled p.segments := segments ▸ List.mem_concat_self
      simpa using (List.mem_filter.mp mem).2
    rw [Step.ofSegment] at step
    split at step
    · cases step
    · next notHere =>
      split at step
      · cases step
      · next notUp =>
        cases step
        have body : bodyComponents p.segments = bodyComponents (Path.filled p.segments) := by
          rw [bodyComponents, bodyComponents, filled, List.filter_filter]
          refine congrArg _ (List.filter_congr fun segment _ => ?_)
          by_cases empty : segment = "" <;> simp [isFiller, empty]
        have kept : bodyComponents (front ++ [name]) = bodyComponents front ++ [.name name] := by
          simp [bodyComponents, isFiller, componentOf, nonempty, notHere, notUp]
        rw [fileName?, components_eq, body, segments, kept, ← List.append_assoc,
          List.getLast?_concat]

/-! ## Paths in a world -/

namespace World

variable {w : World} {root : Path} {location : Location} {node : Node} {entries : Directory}

/-- Following a link that a path ends in changes where the path leads only if there is one. -/
theorem locate_follow (w : World) (root : Path) :
    w.locate root true = w.locate root false ∨
      ∃ location target, w.locate root false = .ok location ∧
        w.files.get? location = some (.link target) := by
  unfold locate
  split
  · exact .inl rfl
  · unfold locateSteps
    split
    · exact w.files.resolve_follow _ _ _
    · split
      · exact w.files.resolve_follow _ _ _
      · exact .inl rfl

/-- An operation made of two gives an answer when both parts do. -/
theorem bind_eq_ok {α β : Type} {x : Except Fault α} {f : α → Except Fault β} {answer : β} :
    (x >>= f) = .ok answer ↔ ∃ middle, x = .ok middle ∧ f middle = .ok answer := by
  cases x <;> simp [bind, Except.bind]

/-- An answer is known from what can be compared of it. -/
theorem eq_ok_of_toOption {ε α : Type} {x : Except ε α} {answer : α}
    (h : x.toOption = some answer) : x = .ok answer := by
  cases x with
  | error fault => cases h
  | ok other => exact congrArg _ (Option.some.inj h)

/-- A node is found where the path leads. -/
theorem node_eq_ok {follow : Bool} : w.node root follow = .ok node ↔
    ∃ location, w.locate root follow = .ok location ∧ w.files.get? location = some node := by
  rw [World.node, bind_eq_ok]
  refine exists_congr fun location => and_congr_right fun _ => ?_
  cases w.files.get? location with
  | none => simp [throw, throwThe, MonadExceptOf.throw]
  | some found => simp [pure, Except.pure]

/-- A file that bears the bytes of a text reads as that text. -/
theorem readText_of_node {text : String} {executable : Bool}
    (h : w.node root true = .ok (.file text.toUTF8 executable)) : w.readText root = .ok text := by
  simp [readText, readBytes, h, bind, Except.bind, pure, Except.pure]

/-- A path is followed from a directory, the top or the working directory. -/
theorem resolve_of_locate {follow : Bool} (h : w.locate root follow = .ok location) :
    ∃ here, w.files.isDirectoryAt here = true ∧
      w.files.resolve follow linkLimit here root.steps = .ok location := by
  rw [locate] at h
  split at h
  · cases h
  · rw [locateSteps] at h
    split at h
    · exact ⟨[], Directory.isDirectoryAt_nil w.files, h⟩
    · split at h
      · next working => exact ⟨w.workingDirectory, working, h⟩
      · cases h

/-- Where a path leads, something stands. -/
theorem exists_of_locate {follow : Bool} (h : w.locate root follow = .ok location) :
    ∃ node, w.files.get? location = some node := by
  obtain ⟨here, start, h⟩ := resolve_of_locate h
  exact Directory.exists_of_resolve_eq_ok start h

/-- A path that leads to what is no directory ends in the name of what it leads to. -/
theorem fileName?_of_locate (h : w.locate root false = .ok location)
    (found : w.files.get? location = some node) (kind : node.kind ≠ .directory) :
    ∃ name, root.fileName? = some name ∧ location.getLast? = some name := by
  obtain ⟨here, start, h⟩ := resolve_of_locate h
  obtain ⟨name, last, own⟩ := Directory.getLast?_of_resolve_eq_ok start h found kind
  exact ⟨name, Path.fileName?_of_getLast?_steps last, own⟩

end World

end BuildRunner
