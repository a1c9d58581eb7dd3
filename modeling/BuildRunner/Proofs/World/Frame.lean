import BuildRunner.Proofs.Tree.Follow

/-!
# What removing and making directories leaves alone

Removing what a path names takes a subtree away, and making a directory adds directories. What
either does is said by the faces of the two trees: `Shrinks` for trees from which only what stands
at one of the given paths was taken, `Extends` for trees to which only directories were added that
one of the given paths leads to. Both are closed under doing one after the other. For this it has to
be known that a path leads to the same place in the smaller tree and in the larger one, whenever it
leads anywhere in the smaller.
-/

namespace BuildRunner

namespace World

variable {w w' : World} {p : Path} {location : Location} {absolute follow : Bool}
  {steps : List Step}

/-! ## Where a path starts -/

/-- Where a path starts, if anywhere. -/
def origin? (w : World) (absolute : Bool) : Option Location :=
  if absolute then some []
  else if w.files.isDirectoryAt w.workingDirectory then some w.workingDirectory
  else none

theorem locateSteps_eq_ok : w.locateSteps absolute follow steps = .ok location ↔
    ∃ here, w.origin? absolute = some here ∧
      w.files.resolve follow linkLimit here steps = .ok location := by
  rw [locateSteps, origin?]
  split
  · simp
  · split <;> simp

theorem isDirectoryAt_of_origin? {here : Location} (h : w.origin? absolute = some here) :
    w.files.isDirectoryAt here = true := by
  rw [origin?] at h
  split at h
  · cases h
    exact Directory.isDirectoryAt_nil w.files
  · split at h
    · next stands =>
      cases h
      exact stands
    · cases h

/-- Paths start where they started, if the working directory is still there. -/
theorem origin?_of_workingDirectory {here : Location}
    (same : w'.workingDirectory = w.workingDirectory)
    (kept : w.files.isDirectoryAt w.workingDirectory = true →
      w'.files.isDirectoryAt w.workingDirectory = true)
    (start : w.origin? absolute = some here) : w'.origin? absolute = some here := by
  rw [origin?] at start ⊢
  split
  · next absolute => rwa [if_pos absolute] at start
  · next relative =>
    rw [if_neg relative] at start
    split at start
    · next stands => rw [same, if_pos (kept stands), start]
    · cases start

/-- The first ones of steps that lead somewhere lead to a directory. -/
theorem locateSteps_append_cases {front rest : List Step} (more : rest ≠ [])
    (located : w.locateSteps absolute follow (front ++ rest) = .ok location) :
    ∃ parent fewer, w.locateSteps absolute true front = .ok parent ∧
      w.files.isDirectoryAt parent = true ∧
      w.files.resolve follow fewer parent rest = .ok location := by
  obtain ⟨here, start, reached⟩ := locateSteps_eq_ok.mp located
  obtain ⟨parent, fewer, up, stands, further⟩ :=
    Directory.resolve_append_cases (isDirectoryAt_of_origin? start) more reached
  exact ⟨parent, fewer, locateSteps_eq_ok.mpr ⟨here, start, up⟩, stands, further⟩

theorem locate_eq_ok : w.locate p follow = .ok location ↔
    badPath p = none ∧ w.locateSteps p.isAbsolute follow p.steps = .ok location := by
  rw [locate]
  cases badPath p with
  | none => simp
  | some fault => simp

/-! ## A larger world -/

/-- All that is seen in one world is seen in another, from the same working directory. -/
structure PartOf (w w' : World) : Prop where
  files : w.files.PartOf w'.files
  workingDirectory : w'.workingDirectory = w.workingDirectory

theorem PartOf.refl (w : World) : w.PartOf w :=
  ⟨.refl _, rfl⟩

/-- Steps lead to the same in a larger world, unless something is missing in the smaller one. -/
theorem PartOf.locateSteps_cases (h : w.PartOf w') (absolute follow : Bool) (steps : List Step) :
    w.locateSteps absolute follow steps = w'.locateSteps absolute follow steps ∨
      w.locateSteps absolute follow steps = .error .notFound := by
  rw [locateSteps, locateSteps]
  split
  · exact h.files.resolve_cases follow linkLimit [] steps
  · split
    · next stands =>
      rw [h.workingDirectory, if_pos (h.files.isDirectoryAt stands)]
      exact h.files.resolve_cases follow linkLimit w.workingDirectory steps
    · exact .inr rfl

/-- A path leads to the same in a larger world, unless something is missing in the smaller one. -/
theorem PartOf.locate_cases (h : w.PartOf w') (p : Path) (follow : Bool) :
    w.locate p follow = w'.locate p follow ∨ w.locate p follow = .error .notFound := by
  rw [locate, locate]
  cases badPath p with
  | some fault => exact .inl rfl
  | none => exact h.locateSteps_cases p.isAbsolute follow p.steps

theorem PartOf.locateSteps_eq_ok (h : w.PartOf w')
    (located : w.locateSteps absolute follow steps = .ok location) :
    w'.locateSteps absolute follow steps = .ok location := by
  rcases h.locateSteps_cases absolute follow steps with same | missing
  · rw [← same, located]
  · cases located.symm.trans missing

theorem PartOf.locate_eq_ok (h : w.PartOf w') (located : w.locate p follow = .ok location) :
    w'.locate p follow = .ok location := by
  obtain ⟨plain, located⟩ := World.locate_eq_ok.mp located
  exact World.locate_eq_ok.mpr ⟨plain, h.locateSteps_eq_ok located⟩

/-! ## Removing -/

/-- From one world to another only subtrees were taken away, each at the place of one of the paths,
where a link that the path ends in is itself the place. -/
structure Shrinks (paths : List Path) (w w' : World) : Prop where
  part : w'.PartOf w
  gone : ∀ location face, w.files.face? location = some face →
    w'.files.face? location = some face ∨
      ∃ p ∈ paths, ∃ spot, w.locate p false = .ok spot ∧ spot <+: location

theorem Shrinks.refl (paths : List Path) (w : World) : Shrinks paths w w :=
  ⟨.refl w, fun _ _ found => .inl found⟩

theorem Shrinks.mono {more : List Path} (h : Shrinks paths w w') (all : paths ⊆ more) :
    Shrinks more w w' := by
  refine ⟨h.part, fun location face found => (h.gone location face found).imp_right ?_⟩
  rintro ⟨p, mem, spot⟩
  exact ⟨p, all mem, spot⟩

theorem Shrinks.trans {w'' : World} (h : Shrinks paths w w') (h' : Shrinks paths w' w'') :
    Shrinks paths w w'' := by
  refine ⟨⟨h'.part.files.trans h.part.files, ?_⟩, fun location face found => ?_⟩
  · rw [h.part.workingDirectory, h'.part.workingDirectory]
  · rcases h.gone location face found with kept | gone
    · rcases h'.gone location face kept with kept | ⟨p, mem, spot, located, inside⟩
      · exact .inl kept
      · exact .inr ⟨p, mem, spot, h.part.locate_eq_ok located, inside⟩
    · exact .inr gone

theorem remove_shrinks (h : w.remove p = .ok w') : Shrinks [p] w w' := by
  rw [remove] at h
  split at h
  · cases h
    exact .refl _ w
  · cases h
  · obtain ⟨spot, located, h⟩ := bind_eq_ok.mp h
    cases h
    by_cases top : spot = []
    · -- the top directory is not removed
      subst top
      rw [Directory.alter]
      exact .refl _ w
    · have faces := Directory.face?_alter_none w.files top
      refine ⟨⟨fun location face found => ?_, rfl⟩, fun location face found => ?_⟩
      · rw [withFiles, faces] at found
        split at found
        · cases found
        · exact found
      · rw [withFiles, faces]
        split
        · next inside => exact .inr ⟨p, List.mem_singleton_self p, spot, located, inside⟩
        · exact .inl found

/-! ## Making directories -/

/-- From one world to another only directories were added, each where one of the paths leads to. -/
structure Extends (paths : List Path) (w w' : World) : Prop where
  part : w.PartOf w'
  added : ∀ location face, w'.files.face? location = some face →
    w.files.face? location = some face ∨
      face = .directory ∧ ∃ p ∈ paths, w'.locate p true = .ok location

theorem Extends.refl (paths : List Path) (w : World) : Extends paths w w :=
  ⟨.refl w, fun _ _ found => .inl found⟩

theorem Extends.mono {more : List Path} (h : Extends paths w w') (all : paths ⊆ more) :
    Extends more w w' := by
  refine ⟨h.part, fun location face found => (h.added location face found).imp_right ?_⟩
  rintro ⟨made, p, mem, located⟩
  exact ⟨made, p, all mem, located⟩

theorem Extends.trans {w'' : World} (h : Extends paths w w') (h' : Extends paths w' w'') :
    Extends paths w w'' := by
  refine ⟨⟨h.part.files.trans h'.part.files, ?_⟩, fun location face found => ?_⟩
  · rw [h'.part.workingDirectory, h.part.workingDirectory]
  · rcases h'.added location face found with before | added
    · rcases h.added location face before with before | ⟨made, p, mem, located⟩
      · exact .inl before
      · exact .inr ⟨made, p, mem, h'.part.locate_eq_ok located⟩
    · exact .inr added

/-- The steps of a path that has a place: those that lead to the directory it is in, then the name,
and a slash may follow. -/
theorem steps_of_place {old : Option Node} (h : w.place p = .ok (location, old)) :
    badPath p = none ∧ ∃ front name last parent, p.steps = front ++ .name name :: last ∧
      (last = [] ∨ last = [.stay]) ∧ w.locateSteps p.isAbsolute true front = .ok parent ∧
      w.files.isDirectoryAt parent = true ∧ name.bytes.length ≤ nameLimit ∧
      location = parent ++ [name] ∧ old = w.files.get? location := by
  obtain ⟨plain, before, last, parent, name, segments, step, short, located, rest⟩ :=
    segments_of_place h
  have named : (Path.filled p.segments).map Step.ofSegment =
      before.map Step.ofSegment ++ [.name name] := by
    rw [segments, List.map_append, List.map_singleton, step]
  refine ⟨plain, before.map Step.ofSegment, name,
    if p.raw.bytes.getLast? = some Path.slash then [.stay] else [], parent, ?_, ?_, located, rest.1,
    short, rest.2⟩
  · rw [Path.steps, named]
    split <;> simp
  · split
    · exact .inr rfl
    · exact .inl rfl

theorem makeDirectory_extends (h : w.makeDirectory p = .ok w') : Extends [p] w w' := by
  obtain ⟨⟨location, old⟩, placed, h⟩ := bind_eq_ok.mp h
  cases old with
  | some node => cases h
  | none =>
    cases h
    obtain ⟨plain, front, name, last, parent, steps, ends, located, stands, short, rfl, free⟩ :=
      steps_of_place placed
    have faces := Directory.face?_alter_directory stands free.symm
    have part : w.PartOf (w.withFiles (w.files.alter (fun _ => some (.directory .empty))
        (parent ++ [name]))) := by
      refine ⟨fun other face found => ?_, rfl⟩
      rw [withFiles, faces, if_neg]
      · exact found
      · rintro rfl
        rw [Directory.face?_eq_none_iff.mpr free.symm] at found
        cases found
    refine ⟨part, fun other face found => ?_⟩
    rw [withFiles, faces] at found
    split at found
    · next own =>
      cases found
      subst own
      refine .inr ⟨rfl, p, List.mem_singleton_self p, locate_eq_ok.mpr ⟨plain, ?_⟩⟩
      -- the steps up to the parent lead there as before, and the new directory stands in it
      obtain ⟨here, start, reached⟩ := locateSteps_eq_ok.mp (part.locateSteps_eq_ok located)
      obtain ⟨sub, made⟩ := Directory.face?_eq_directory_iff.mp ((faces _).trans (if_pos rfl))
      obtain ⟨fewer, continued⟩ := Directory.resolve_append_of_eq_ok
        (isDirectoryAt_of_origin? start) reached (part.files.isDirectoryAt stands)
      refine locateSteps_eq_ok.mpr ⟨here, start, ?_⟩
      rw [steps, continued _ _ (List.cons_ne_nil _ _)]
      refine Directory.resolve_of_arrived ?_
      rcases ends with rfl | rfl <;>
        simp [Directory.advance, Nat.not_lt.mpr short, withFiles, made]
    · exact .inl found

theorem makeFirst_extends (w : World) (paths : List Path) :
    Extends paths w (w.makeFirst paths).1 := by
  induction paths with
  | nil => exact .refl _ w
  | cons path paths ih =>
    have above : Extends (path :: paths) w (w.makeFirst paths).1 :=
      ih.mono (List.subset_cons_self path paths)
    have own {before made : World} (h : before.makeDirectory path = .ok made) :
        Extends (path :: paths) before made :=
      (makeDirectory_extends h).mono (List.cons_subset_cons path (List.nil_subset paths))
    rw [makeFirst]
    split
    · next made => exact own made
    · split
      · next reached fault eq => exact eq ▸ above
      · next reached eq =>
        rw [eq] at above
        split
        · next made =>
          exact above.trans (own made)
        · exact above
    · exact .refl _ w

end World

end BuildRunner
