import BuildRunner.Proofs.Tree.Follow

/-!
# Steps that stay, and steps down by names

A step that stays changes nothing, unless it is the last one: a link in the step before it is then
on the way and followed, and a file there is refused. So steps may be made plain before they are
taken: those that stay can be left out up to the last (`resolve_tidy`), and all of them can be left
out where links are followed in the last step (`resolve_plain`).

Steps down by names arrive at the location of these names, if directories stand on the way.
-/

namespace BuildRunner

/-! ## Plain steps -/

namespace Step

/-- The steps that do not stay. -/
def plain (steps : List Step) : List Step :=
  steps.filter (· ≠ .stay)

/-- The steps that do not stay, and the last one. -/
def tidy : List Step → List Step
  | [] => []
  | [last] => [last]
  | .stay :: next :: rest => tidy (next :: rest)
  | step :: next :: rest => step :: tidy (next :: rest)

variable {a b steps : List Step}

theorem tidy_eq_nil : tidy steps = [] ↔ steps = [] := by
  fun_induction tidy steps with
  | case1 => simp
  | case2 => simp
  | case3 next rest ih => simp [ih]
  | case4 => simp

/-- Steps down by names are plain. -/
theorem plain_names (names : Location) : plain (names.map .name) = names.map .name :=
  List.filter_eq_self.mpr (by simp)

theorem plain_append (a b : List Step) : plain (a ++ b) = plain a ++ plain b :=
  List.filter_append _ _

/-- Tidy steps are plain but for a last one that stays. -/
theorem tidy_eq (steps : List Step) :
    tidy steps = plain steps ∧ steps.getLast? ≠ some .stay ∨
      tidy steps = plain steps ++ [.stay] ∧ steps.getLast? = some .stay := by
  fun_induction tidy steps with
  | case1 => simp [plain]
  | case2 last =>
    by_cases stays : last = .stay
    · simp [plain, stays]
    · simp [plain, stays]
  | case3 next rest ih => simpa [plain, List.getLast?_cons_cons] using ih
  | case4 step next rest moves ih =>
    have own : step ≠ .stay := moves
    simpa [plain, List.getLast?_cons_cons, own] using ih

theorem tidy_cons (step : Step) (more : steps ≠ []) :
    tidy (step :: steps) = if step = .stay then tidy steps else step :: tidy steps := by
  obtain ⟨next, rest, rfl⟩ := List.exists_cons_of_ne_nil more
  cases step <;> rfl

/-- Steps with others behind them are made plain. -/
theorem tidy_append (a : List Step) (more : b ≠ []) : tidy (a ++ b) = plain a ++ tidy b := by
  induction a with
  | nil => rfl
  | cons step a ih =>
    have behind : a ++ b ≠ [] := fun none => more (List.append_eq_nil_iff.mp none).2
    rw [List.cons_append, tidy_cons step behind, ih, plain, plain, List.filter_cons]
    by_cases stays : step = .stay <;> simp [stays]

theorem tidy_tidy (steps : List Step) : tidy (tidy steps) = tidy steps := by
  fun_induction tidy steps with
  | case1 => rfl
  | case2 last => rfl
  | case3 next rest ih => exact ih
  | case4 step next rest moves ih =>
    have more : tidy (next :: rest) ≠ [] := fun none => List.cons_ne_nil _ _ (tidy_eq_nil.mp none)
    rw [tidy_cons step more, if_neg moves, ih]

/-- What stands behind may be tidied first. -/
theorem tidy_append_tidy (a b : List Step) : tidy (a ++ tidy b) = tidy (a ++ b) := by
  by_cases none : b = []
  · rw [none, tidy]
  · have more : tidy b ≠ [] := fun empty => none (tidy_eq_nil.mp empty)
    rw [tidy_append a more, tidy_append a none, tidy_tidy]

end Step

/-! ## Following plain steps -/

namespace Directory

variable {top : Directory} {follow : Bool} {here location : Location} {steps : List Step}

/-- Tidy steps go the same way up to the first link, with tidy steps left behind it. -/
theorem advance_tidy (top : Directory) (follow : Bool) (here : Location) (steps : List Step) :
    top.advance follow here (Step.tidy steps) =
      match top.advance follow here steps with
      | .link base target rest => .link base target (Step.tidy rest)
      | other => other := by
  fun_induction Step.tidy steps generalizing here with
  | case1 => rfl
  | case2 last =>
    cases last with
    | stay => rfl
    | up => rfl
    | name n =>
      simp only [advance]
      by_cases long : nameLimit < n.bytes.length
      · rw [if_pos long]
      · rw [if_neg long]
        rcases top.get? (here ++ [n]) with _ | ⟨content, executable⟩ | target | sub
        · rfl
        · rfl
        · cases follow <;> rfl
        · rfl
  | case3 next rest ih => rw [advance, ih]
  | case4 step next rest moves ih =>
    cases step with
    | stay => exact absurd rfl moves
    | up => rw [advance, advance, ih]
    | name n =>
      have more : Step.tidy (next :: rest) ≠ [] := fun none =>
        List.cons_ne_nil _ _ (Step.tidy_eq_nil.mp none)
      simp only [advance]
      by_cases long : nameLimit < n.bytes.length
      · rw [if_pos long, if_pos long]
      · rw [if_neg long, if_neg long]
        rcases top.get? (here ++ [n]) with _ | ⟨content, executable⟩ | target | sub
        · rfl
        · simp [more]
        · simp [more]
        · exact ih _

/-- The steps that stay can be left out, up to the last. -/
theorem resolve_tidy (top : Directory) (follow : Bool) (links : Nat) (here : Location)
    (steps : List Step) :
    top.resolve follow links here (Step.tidy steps) = top.resolve follow links here steps := by
  induction links generalizing here steps with
  | zero =>
    rw [resolve, resolve, advance_tidy]
    cases top.advance follow here steps <;> rfl
  | succ links ih =>
    rw [resolve, resolve, advance_tidy]
    cases top.advance follow here steps with
    | arrived location => rfl
    | refused fault => rfl
    | link base target rest =>
      dsimp only
      rw [← ih, Step.tidy_append_tidy, ih]

/-- A last step that stays can be left out where the step before it is followed. -/
theorem resolve_of_resolve_stay {links : Nat} {front : List Step}
    (start : top.isDirectoryAt here = true)
    (reached : top.resolve true links here (front ++ [.stay]) = .ok location) :
    top.resolve true links here front = .ok location := by
  obtain ⟨middle, fewer, up, _, stayed⟩ :=
    resolve_append_cases start (List.cons_ne_nil _ _) reached
  have stay : top.resolve true fewer middle [.stay] = .ok middle :=
    resolve_of_arrived (by simp [advance])
  rw [up, ← stay, stayed]

/-- Where steps lead, their plain steps lead if links are followed in the last one. -/
theorem resolve_plain {links : Nat} (start : top.isDirectoryAt here = true)
    (reached : top.resolve true links here steps = .ok location) :
    top.resolve true links here (Step.plain steps) = .ok location := by
  rw [← resolve_tidy] at reached
  rcases Step.tidy_eq steps with ⟨same, _⟩ | ⟨closed, _⟩
  · rwa [same] at reached
  · rw [closed] at reached
    exact resolve_of_resolve_stay start reached

/-- Where plain steps lead to a directory, so do the steps with those that stay. -/
theorem resolve_of_plain {links : Nat} (start : top.isDirectoryAt here = true)
    (reached : top.resolve true links here (Step.plain steps) = .ok location)
    (stands : top.isDirectoryAt location = true) :
    top.resolve true links here steps = .ok location := by
  rw [← resolve_tidy]
  rcases Step.tidy_eq steps with ⟨same, _⟩ | ⟨closed, _⟩
  · rwa [same]
  · obtain ⟨fewer, continued⟩ := resolve_append_of_eq_ok start reached stands
    rw [closed, continued true _ (List.cons_ne_nil _ _)]
    exact resolve_of_arrived (by simp [advance])

/-- Steps that do not end in one that stays lead to where their plain steps do. -/
theorem resolve_eq_plain (top : Directory) (follow : Bool) (links : Nat) (here : Location)
    (moves : steps.getLast? ≠ some .stay) :
    top.resolve follow links here steps = top.resolve follow links here (Step.plain steps) := by
  rw [← resolve_tidy]
  rcases Step.tidy_eq steps with ⟨same, _⟩ | ⟨_, stays⟩
  · rw [same]
  · exact absurd stays moves

/-! ## Steps down by names -/

/-- Steps down by names are taken where directories stand. -/
theorem advance_names {names : Location} (named : ∀ name ∈ names, IsName name) (rest : List Step)
    (stands : top.isDirectoryAt (here ++ names) = true) :
    top.advance follow here (names.map .name ++ rest) =
      top.advance follow (here ++ names) rest := by
  induction names generalizing here with
  | nil =>
    rw [List.append_nil]
    rfl
  | cons name names ih =>
    obtain ⟨own, others⟩ := List.forall_mem_cons.mp named
    have there : here ++ name :: names = here ++ [name] ++ names := by simp
    rw [there] at stands ⊢
    obtain ⟨inner, found⟩ := isDirectoryAt_iff.mp stands
    obtain ⟨sub, above⟩ : ∃ sub, top.get? (here ++ [name]) = some (.directory sub) := by
      by_cases last : names = []
      · rw [last, List.append_nil] at found
        exact ⟨inner, found⟩
      · exact exists_directory_of_get?_append last found
    rw [List.map_cons, List.cons_append, advance, if_neg (Nat.not_lt.mpr own.short)]
    simp only [above]
    exact ih others stands

/-- Steps down by names lead to what stands below, if it is no link. -/
theorem resolve_names {names : Location} {node : Node} (named : ∀ name ∈ names, IsName name)
    (links : Nat) (found : top.get? (here ++ names) = some node) (kind : node.kind ≠ .link) :
    top.resolve follow links here (names.map .name) = .ok (here ++ names) := by
  refine resolve_of_arrived ?_
  rcases List.eq_nil_or_concat names with rfl | ⟨above, last, rfl⟩
  · rw [List.append_nil]
    rfl
  · rw [List.concat_eq_append] at named found ⊢
    rw [← List.append_assoc] at found ⊢
    obtain ⟨sub, directory⟩ := exists_directory_of_get?_append (List.cons_ne_nil _ _) found
    have short := (named last (List.mem_append_right _ List.mem_cons_self)).short
    rw [List.map_append, List.map_singleton,
      advance_names (fun name mem => named name (List.mem_append_left _ mem)) _
        (isDirectoryAt_iff.mpr ⟨sub, directory⟩), advance, if_neg (Nat.not_lt.mpr short)]
    cases node with
    | file content executable => simp only [found, if_true]
    | link target => exact absurd rfl kind
    | directory inner => simp only [found, advance]

end Directory

end BuildRunner
